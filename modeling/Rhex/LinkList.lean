import Mathlib
import Rhex.Netlink

/-!
# The list of interfaces (`libnetlink/link_list.c`)

`nl_link_list` asks for all links and takes the names of those of one type from the reply.

* `scanAttrs`, `scanMessages`, `linkLoop` — its three loops; `nlLinkList` — the function.
* `LinkReply` — a reply of the kernel.
* `link_list_exact` — when the list is that of the first four links in the reply.

Beside the list, the model keeps which attributes were looked at.
-/

namespace Rhex

open Memory

/-! ## The function -/

/-- `RTM_NEWLINK`. -/
def rtmNewlink : UInt16 := 16

/-- `IFLA_IFNAME`. -/
def iflaIfname : UInt16 := 3

/-- `ARPHRD_VOID`. -/
def arphrdVoid : UInt16 := 0xFFFF

/-- `IFNAMSIZ`. -/
@[simp] abbrev ifNamSiz : Nat := 16

/-- `if_desc_t`. -/
structure IfDesc where
  ifname : List UInt8
  ifiIndex : UInt32
deriving DecidableEq

/-- What `memset` and `strncpy` leave in `ifname`, when `src` are the bytes from the name on. -/
def ifname (src : List UInt8) : List UInt8 :=
  let name := (src.take (ifNamSiz - 1)).takeWhile (· ≠ 0)
  name ++ List.replicate (ifNamSiz - name.length) 0

/-- An attribute that was looked at, and the attributes of the message it was looked for in, each
by its first byte and the byte behind it. -/
structure Looked where
  first : Nat
  behind : Nat
  attr : Nat
  attrBehind : Nat

/-- The attribute is one of the message. -/
def Looked.Inside (x : Looked) : Prop := x.first ≤ x.attr ∧ x.attrBehind ≤ x.behind

/-- The entries of `if_list` that were filled, and the attributes that were looked at. -/
structure LinkScan where
  ifList : List IfDesc
  looked : List Looked

/-- A name is entered while there is room. -/
def enter (ifList : List IfDesc) (d : IfDesc) : List IfDesc :=
  if ifList.length < nlMaxIfaces then ifList ++ [d] else ifList

/-- One round of the loop over the attributes of the message at `msg`; `p` is `attr_ptr`. -/
def lookAttr (b : Buf) (msg p : Nat) (s : LinkScan) : LinkScan where
  ifList :=
    if rtaType b p = iflaIfname then
      enter s.ifList ⟨ifname (slice b (p + 4) (ifNamSiz - 1)), read32 b (msg + 20)⟩
    else s.ifList
  looked := s.looked ++ [⟨msg + 32, msg + (nlmsgLen b msg).toNat, p, p + (rtaLen b p).toNat⟩]

/-- The loop over the attributes. In each round `attr_len` is again the length of all of them. -/
def scanAttrs (b : Buf) (msg : Nat) : Nat → Nat → LinkScan → Option LinkScan
  | 0, _, _ => none
  | fuel + 1, p, s =>
    if rtaOk b p (nlmsgLen b msg - 32) then
      scanAttrs b msg fuel (rtaNext b p) (lookAttr b msg p s)
    else some s

/-- A message that the loop skips. -/
def skipped (b : Buf) (p : Nat) (ifiType : UInt16) : Prop :=
  nlmsgType b p ≠ rtmNewlink ∨ ifiType ≠ arphrdVoid ∧ read16 b (p + 18) ≠ ifiType

instance (b : Buf) (p : Nat) (ifiType : UInt16) : Decidable (skipped b p ifiType) :=
  inferInstanceAs (Decidable (_ ∨ _))

/-- The loop over the messages; `p` is `nlmsg_ptr` and `len` is `msg_len`. -/
def scanMessages (b : Buf) (ifiType : UInt16) :
    Nat → Nat → UInt32 → LinkScan → Option (Nat × LinkScan)
  | 0, _, _, _ => none
  | fuel + 1, p, len, s =>
    if nlmsgOk b p len then
      if nlmsgType b p = nlmsgDone then some (p, s)
      else
        let (next, rest) := nlmsgNext b p len
        if skipped b p ifiType then scanMessages b ifiType fuel next rest s
        else (scanAttrs b p (fuel + 1) (p + 32) s).bind fun s =>
          scanMessages b ifiType fuel next rest s
    else some (p, s)

def linkLoop (ifiType : UInt16) (seqId : UInt32) :
    Nat → List (List UInt8) → Buf → LinkScan → Option (Int × LinkScan)
  | 0, _, _, _ => none
  | fuel + 1, sock, buf, s =>
    (readNetlinkRecv sock buf seqId false).bind fun recv =>
      if recv.result < 0 then some (-1, s)
      else (scanMessages recv.buf ifiType (fuel + 1) 0 (.ofNat recv.result.toNat) s).bind
        fun (p, s) =>
          if nlmsgType recv.buf p = nlmsgDone then some (s.ifList.length, s)
          else linkLoop ifiType seqId fuel recv.sock recv.buf s

/-- `nl_link_list`; `sent` is the result of `netlink_request`. -/
def nlLinkList (ifiType : UInt16) (sent : Int) (seqId : UInt32) (fuel : Nat)
    (sock : List (List UInt8)) (buf : Buf) : Option (Int × LinkScan) :=
  if sent < 0 then some (-1, ⟨[], []⟩) else linkLoop ifiType seqId fuel sock buf ⟨[], []⟩

/-- `nl_get_eth_list`; `ARPHRD_ETHER` is 1. -/
def nlGetEthList := nlLinkList 1

/-- `nl_get_wlan_rt_list`; `ARPHRD_IEEE80211_RADIOTAP` is 803. -/
def nlGetWlanRtList := nlLinkList 803

/-- `nl_get_can_list`; `ARPHRD_CAN` is 280. -/
def nlGetCanList := nlLinkList 280

/-! ## Replies -/

/-- The message `RTM_NEWLINK`. It has at most one name, which ends with a zero. -/
structure Link where
  flags : UInt16
  pid : UInt32
  family : UInt8
  type : UInt16
  index : UInt32
  ifiFlags : UInt32
  change : UInt32
  attrs : List RtAttr
  len_lt : ∀ a ∈ attrs, a.len < 2 ^ 16
  one_name : (attrs.filter fun a => a.type = iflaIfname).length ≤ 1
  terminated : ∀ a ∈ attrs, a.type = iflaIfname → 0 ∈ a.data.take ifNamSiz

/-- A message of a reply, `NLMSG_DONE` apart. -/
inductive LinkMsg where
  | link (l : Link)
  | other (m : NlMsg) (h : m.type ≠ nlmsgError ∧ m.type ≠ nlmsgDone ∧ m.type ≠ rtmNewlink)

/-- The bytes of the attributes of a link. -/
def Link.attrBytes (l : Link) : List UInt8 := l.attrs.flatMap RtAttr.encode

def Link.msg (l : Link) : NlMsg where
  type := rtmNewlink
  flags := l.flags
  pid := l.pid
  payload := [l.family, 0] ++ (le16 l.type ++ (le32 l.index ++ (le32 l.ifiFlags ++
    (le32 l.change ++ l.attrBytes))))

/-- The link is of the requested type. -/
def Link.Requested (ifiType : UInt16) (l : Link) : Prop := ifiType = arphrdVoid ∨ l.type = ifiType

instance (ifiType : UInt16) (l : Link) : Decidable (l.Requested ifiType) :=
  inferInstanceAs (Decidable (_ ∨ _))

/-- The name and index of a link that has a name. -/
def Link.descs (l : Link) : List IfDesc :=
  (l.attrs.filter fun a => a.type = iflaIfname).map fun a => ⟨ifname a.data, l.index⟩

namespace LinkMsg

def msg : LinkMsg → NlMsg
  | link l => l.msg
  | other m _ => m

/-- What is to be entered for a message. -/
def descs (ifiType : UInt16) : LinkMsg → List IfDesc
  | link l => if l.Requested ifiType then l.descs else []
  | other _ _ => []

end LinkMsg

def encodeAll (seqId : UInt32) (ms : List LinkMsg) : List UInt8 :=
  ms.flatMap fun m => m.msg.encode seqId

/-- A reply: the messages of all datagrams but the last, and those of the last before
`NLMSG_DONE`. -/
structure LinkReply where
  seqId : UInt32
  init : List (List LinkMsg)
  last : List LinkMsg
  done : NlMsg
  done_type : done.type = nlmsgDone
  nonempty : ∀ ms ∈ init, ms ≠ []
  size_init : ∀ ms ∈ init, (encodeAll seqId ms).length ≤ nlBufSize
  size_last : (encodeAll seqId last ++ done.encode seqId).length ≤ nlBufSize

namespace LinkReply

def lastBytes (r : LinkReply) : List UInt8 := encodeAll r.seqId r.last ++ r.done.encode r.seqId

def datagrams (r : LinkReply) : List (List UInt8) :=
  r.init.map (encodeAll r.seqId) ++ [r.lastBytes]

/-- The links of the requested type that have a name. -/
def descs (r : LinkReply) (ifiType : UInt16) : List IfDesc :=
  (r.init.flatten ++ r.last).flatMap (LinkMsg.descs ifiType)

end LinkReply

/-! ## Entries -/

theorem enter_take (l : List IfDesc) (d : IfDesc) :
    enter (l.take nlMaxIfaces) d = (l ++ [d]).take nlMaxIfaces := by
  simp only [enter, nlMaxIfaces, List.length_take]
  by_cases h : l.length < 4
  · rw [if_pos (by omega), List.take_of_length_le h.le, List.take_of_length_le (by simp; omega)]
  · rw [if_neg (by omega), List.take_append_of_le_length (by omega)]

/-- The name of an attribute is read from it, also where 15 bytes go beyond it. -/
theorem ifname_stored {a : RtAttr} {b : Buf} {q : Nat} (h : Stored b q a.data)
    (hzero : 0 ∈ a.data.take ifNamSiz) :
    ifname (slice b q (ifNamSiz - 1)) = ifname a.data := by
  rw [Stored] at h
  by_cases hlen : ifNamSiz - 1 ≤ a.data.length
  · have htake : slice b q (ifNamSiz - 1) = a.data.take (ifNamSiz - 1) := by
      rw [← take_slice b q hlen, h]
    rw [ifname, ifname, htake, List.take_take, Nat.min_self]
  · rw [Nat.not_le] at hlen
    obtain ⟨k, hk⟩ := Nat.exists_eq_add_of_lt hlen
    have hsplit : slice b q (ifNamSiz - 1) =
        a.data ++ slice b (q + a.data.length) (k + 1) := by
      rw [hk, Nat.add_assoc, slice_add, h]
    have hmem : 0 ∈ a.data := List.mem_of_mem_take hzero
    have hstop : (a.data.takeWhile (· ≠ 0)).length ≠ a.data.length := by
      intro heq
      have hall := List.takeWhile_eq_self_iff.mp
        ((List.takeWhile_prefix _).eq_of_length heq) 0 hmem
      simp at hall
    have hle : (slice b q (ifNamSiz - 1)).length ≤ ifNamSiz - 1 := by simp
    rw [ifname, ifname, List.take_of_length_le hle, List.take_of_length_le hlen.le, hsplit,
      List.takeWhile_append, if_neg hstop]

/-! ## Attributes -/

/-- The links found so far are entered, and no attribute was looked at outside its message. -/
structure LinkScan.Found (s : LinkScan) (found : List IfDesc) : Prop where
  ifList : s.ifList = found.take nlMaxIfaces
  inside : ∀ x ∈ s.looked, x.Inside

/-- An attribute was looked at outside its message. -/
def LinkScan.Strayed (s : LinkScan) : Prop := ∃ x ∈ s.looked, ¬x.Inside

theorem LinkScan.Found.not_strayed {s : LinkScan} {found : List IfDesc} (h : s.Found found) :
    ¬s.Strayed := by
  rintro ⟨x, hx, hout⟩
  exact hout (h.inside x hx)

theorem scanAttrs_looked {b : Buf} {msg fuel p : Nat} {s s' : LinkScan}
    (h : scanAttrs b msg fuel p s = some s') : s.looked ⊆ s'.looked := by
  induction fuel generalizing p s with
  | zero => cases h
  | succ fuel ih =>
    rw [scanAttrs] at h
    split_ifs at h
    · exact fun x hx => ih h (List.mem_append_left _ hx)
    · obtain rfl := Option.some.inj h
      exact List.Subset.refl _

/-- The names among the attributes of the link with an index. -/
def attrDescs (index : UInt32) (attrs : List RtAttr) : List IfDesc :=
  (attrs.filter fun a => a.type = iflaIfname).map fun a => ⟨ifname a.data, index⟩

theorem attrDescs_cons (index : UInt32) (a : RtAttr) (attrs : List RtAttr) :
    attrDescs index (a :: attrs) = (if a.type = iflaIfname then [⟨ifname a.data, index⟩] else []) ++
      attrDescs index attrs := by
  by_cases h : a.type = iflaIfname <;> simp [attrDescs, h]

theorem rtaLen_stored {a : RtAttr} (h : a.len < 2 ^ 16) {b : Buf} {p : Nat}
    (hstored : Stored b p a.encode) : (rtaLen b p).toNat = a.len ∧
      rtaNext b p = p + a.encode.length := by
  have hlen : (rtaLen b p).toNat = a.len := by
    rw [(RtAttr.of_stored hstored).1, UInt16.toNat_ofNat', Nat.mod_eq_of_lt h]
  refine ⟨hlen, ?_⟩
  have h32 : (rtaLen b p).toUInt32.toNat = a.len := by rw [UInt16.toNat_toUInt32, hlen]
  rw [rtaNext, nlmsgAlign_toNat (by omega), h32, RtAttr.length_encode]

/-- An attribute that ends within a message is one for `RTA_OK`, where the attributes are behind
`hdr` bytes. -/
theorem rtaOk_stored {a : RtAttr} (ha : a.len < 2 ^ 16) {b : Buf} {msg p : Nat} (hdr : UInt32)
    (hstored : Stored b p a.encode) (hfirst : msg + hdr.toNat ≤ p)
    (hend : p + a.encode.length ≤ msg + (nlmsgLen b msg).toNat) :
    rtaOk b p (nlmsgLen b msg - hdr) := by
  obtain ⟨hlen, -⟩ := rtaLen_stored ha hstored
  have hle := a.len_le_length_encode
  have hfour : 4 ≤ a.len := Nat.le_add_right 4 _
  have hattrLen : (nlmsgLen b msg - hdr).toNat = (nlmsgLen b msg).toNat - hdr.toNat :=
    UInt32.toNat_sub_of_le _ _ (UInt32.le_iff_toNat_le.mpr (by omega))
  refine ⟨UInt32.le_iff_toNat_le.mpr ?_, UInt16.le_iff_toNat_le.mpr ?_,
    UInt32.le_iff_toNat_le.mpr ?_⟩
  · rw [hattrLen, show (4 : UInt32).toNat = 4 from rfl]
    omega
  · rw [hlen]
    exact hfour
  · rw [UInt16.toNat_toUInt32, hlen, hattrLen]
    omega

/-- The loop body enters the name of an attribute, and has looked inside the message. -/
theorem lookAttr_found {a : RtAttr} (ha : a.len < 2 ^ 16)
    (hzero : a.type = iflaIfname → 0 ∈ a.data.take ifNamSiz) {b : Buf} {msg p : Nat}
    (hstored : Stored b p a.encode) (hfirst : msg + 32 ≤ p)
    (hend : p + a.encode.length ≤ msg + (nlmsgLen b msg).toNat) {s : LinkScan}
    {found : List IfDesc} (hs : s.Found found) :
    (lookAttr b msg p s).Found (found ++ if a.type = iflaIfname then
      [⟨ifname a.data, read32 b (msg + 20)⟩] else []) := by
  obtain ⟨-, htype, hdata⟩ := RtAttr.of_stored hstored
  refine ⟨?_, fun x hx => ?_⟩
  · simp only [lookAttr, htype]
    split_ifs with hname
    · rw [hs.ifList, enter_take, ifname_stored hdata (hzero hname)]
    · rw [hs.ifList, List.append_nil]
  · rcases List.mem_append.mp hx with hx | hx
    · exact hs.inside x hx
    · obtain rfl := List.mem_singleton.mp hx
      have hle := a.len_le_length_encode
      refine ⟨hfirst, ?_⟩
      simp only [(rtaLen_stored ha hstored).1]
      omega

/-- **The attributes of a message**: the loop takes the names and comes to the end of the message,
with nothing else looked at. -/
theorem scanAttrs_stored {b : Buf} {msg p : Nat} {attrs : List RtAttr}
    (hstored : Stored b p (attrs.flatMap RtAttr.encode)) (hlt : ∀ a ∈ attrs, a.len < 2 ^ 16)
    (hzero : ∀ a ∈ attrs, a.type = iflaIfname → 0 ∈ a.data.take ifNamSiz)
    (hfirst : msg + 32 ≤ p)
    (hend : p + (attrs.flatMap RtAttr.encode).length = msg + (nlmsgLen b msg).toNat)
    {s : LinkScan} {found : List IfDesc} (hs : s.Found found) :
    ∃ s' : LinkScan, s'.Found (found ++ attrDescs (read32 b (msg + 20)) attrs) ∧
      ∀ fuel, scanAttrs b msg (fuel + attrs.length) p s =
        scanAttrs b msg fuel (msg + (nlmsgLen b msg).toNat) s' := by
  induction attrs generalizing p s found with
  | nil =>
    refine ⟨s, by simpa [attrDescs] using hs, fun fuel => ?_⟩
    rw [← hend]
    simp
  | cons a attrs ih =>
    have ha := hlt a List.mem_cons_self
    rw [List.flatMap_cons] at hstored hend
    rw [List.length_append] at hend
    obtain ⟨hattr, hrest⟩ := stored_append hstored
    have hbehind : p + a.encode.length ≤ msg + (nlmsgLen b msg).toNat := by omega
    have hok := rtaOk_stored ha 32 hattr hfirst hbehind
    have hs₁ := lookAttr_found ha (hzero a List.mem_cons_self) hattr hfirst hbehind hs
    obtain ⟨-, hnext⟩ := rtaLen_stored ha hattr
    obtain ⟨s', hs', hrun⟩ := ih hrest (fun x hx => hlt x (List.mem_cons_of_mem a hx))
      (fun x hx => hzero x (List.mem_cons_of_mem a hx)) (by omega) (by omega) hs₁
    refine ⟨s', ?_, fun fuel => ?_⟩
    · rw [attrDescs_cons, ← List.append_assoc]
      exact hs'
    · rw [List.length_cons, ← Nat.add_assoc, scanAttrs, if_pos hok, hnext]
      exact hrun fuel

theorem scanAttrs_add {b : Buf} {msg fuel p : Nat} {s s' : LinkScan}
    (h : scanAttrs b msg fuel p s = some s') (k : Nat) :
    scanAttrs b msg (fuel + k) p s = some s' := by
  induction fuel generalizing p s with
  | zero => cases h
  | succ fuel ih =>
    rw [scanAttrs] at h
    rw [Nat.succ_add, scanAttrs]
    split_ifs at h ⊢ with hok
    · exact ih h
    · exact h

/-- An attribute that is looked at behind its message is outside. -/
theorem scanAttrs_strayed {b : Buf} {msg fuel : Nat} {s s' : LinkScan}
    (hok : rtaOk b (msg + (nlmsgLen b msg).toNat) (nlmsgLen b msg - 32))
    (h : scanAttrs b msg fuel (msg + (nlmsgLen b msg).toNat) s = some s') : s'.Strayed := by
  cases fuel with
  | zero => cases h
  | succ fuel =>
    rw [scanAttrs, if_pos hok] at h
    refine ⟨_, scanAttrs_looked h (List.mem_append_right _ (List.mem_singleton.mpr rfl)), ?_⟩
    intro hinside
    have hfour := UInt16.le_iff_toNat_le.mp hok.2.1
    have hbehind := hinside.2
    rw [show (4 : UInt16).toNat = 4 from rfl] at hfour
    simp only at hbehind
    omega

/-! ## Messages -/

theorem four_dvd_attrBytes (l : Link) : 4 ∣ l.attrBytes.length := by
  rw [Link.attrBytes, List.length_flatMap]
  refine List.dvd_sum fun n hn => ?_
  obtain ⟨a, -, rfl⟩ := List.mem_map.mp hn
  exact four_dvd_length_pad4 _

theorem Link.msg_len (l : Link) : l.msg.len = 32 + l.attrBytes.length := by
  simp only [NlMsg.len, Link.msg, List.length_append, List.length_cons, List.length_nil,
    length_le16, length_le32]
  omega

theorem Link.length_encode (l : Link) (seqId : UInt32) :
    (l.msg.encode seqId).length = l.msg.len := by
  rw [NlMsg.length_encode, Align.up_of_dvd (by decide)]
  rw [l.msg_len]
  exact (Nat.dvd_add_right (by decide)).mpr (four_dvd_attrBytes l)

theorem Link.of_stored {l : Link} {seqId : UInt32} {b : Buf} {p : Nat}
    (h : Stored b p (l.msg.encode seqId)) : read16 b (p + 18) = l.type ∧
      read32 b (p + 20) = l.index ∧ Stored b (p + 32) l.attrBytes := by
  obtain ⟨-, -, -, h⟩ := NlMsg.of_stored h
  obtain ⟨-, h⟩ := stored_append h
  obtain ⟨htype, h⟩ := stored_append h
  obtain ⟨hindex, h⟩ := stored_append h
  obtain ⟨-, h⟩ := stored_append h
  obtain ⟨-, h⟩ := stored_append h
  exact ⟨read16_of_slice htype, read32_of_slice hindex, h⟩

theorem LinkMsg.type_ne (m : LinkMsg) : m.msg.type ≠ nlmsgError ∧ m.msg.type ≠ nlmsgDone := by
  cases m with
  | link l =>
    change rtmNewlink ≠ nlmsgError ∧ rtmNewlink ≠ nlmsgDone
    decide
  | other m h => exact ⟨h.1, h.2.1⟩

/-- Behind the attributes of a message that is searched, `RTA_OK` does not hold. -/
def EndQuiet (b : Buf) (ifiType : UInt16) (p : Nat) (m : LinkMsg) : Prop :=
  ∀ l, m = .link l → l.Requested ifiType → ¬rtaOk b (p + l.msg.len) (nlmsgLen b p - 32)

/-- So it is for each of some messages, the first of them at `p`. -/
def EndsQuiet (b : Buf) (ifiType : UInt16) (seqId : UInt32) : Nat → List LinkMsg → Prop
  | _, [] => True
  | p, m :: ms => EndQuiet b ifiType p m ∧
      EndsQuiet b ifiType seqId (p + (m.msg.encode seqId).length) ms

theorem scanMessages_looked {b : Buf} {ifiType : UInt16} {fuel p p' : Nat} {len : UInt32}
    {s s' : LinkScan} (h : scanMessages b ifiType fuel p len s = some (p', s')) :
    s.looked ⊆ s'.looked := by
  induction fuel generalizing p len s with
  | zero => cases h
  | succ fuel ih =>
    simp only [scanMessages] at h
    split_ifs at h
    · obtain ⟨-, rfl⟩ := Prod.mk.inj (Option.some.inj h)
      exact List.Subset.refl _
    · exact ih h
    · obtain ⟨s₁, hattrs, hrest⟩ := Option.bind_eq_some_iff.mp h
      exact fun x hx => ih hrest (scanAttrs_looked hattrs hx)
    · obtain ⟨-, rfl⟩ := Prod.mk.inj (Option.some.inj h)
      exact List.Subset.refl _

theorem scanMessages_add {b : Buf} {ifiType : UInt16} {fuel p : Nat} {len : UInt32}
    {s : LinkScan} {r : Nat × LinkScan} (h : scanMessages b ifiType fuel p len s = some r)
    (k : Nat) : scanMessages b ifiType (fuel + k) p len s = some r := by
  induction fuel generalizing p len s with
  | zero => cases h
  | succ fuel ih =>
    simp only [scanMessages] at h
    simp only [Nat.succ_add, scanMessages]
    split_ifs at h ⊢ with hok hdone hskip
    · exact h
    · exact ih h
    · obtain ⟨s₁, hattrs, hrest⟩ := Option.bind_eq_some_iff.mp h
      have hattrs' := scanAttrs_add hattrs k
      rw [Nat.succ_add] at hattrs'
      rw [hattrs', Option.bind_some]
      exact ih hrest
    · exact h

section

variable {b : Buf} {ifiType : UInt16} {seqId : UInt32} {p : Nat} {len : UInt32} {s : LinkScan}
  {found : List IfDesc}

/-- A message that lies within what is left. -/
theorem nlmsg_stored {m : NlMsg} (h : Stored b p (m.encode seqId))
    (hlen : (m.encode seqId).length ≤ len.toNat) (hsmall : len.toNat ≤ nlBufSize) :
    (nlmsgLen b p).toNat = m.len ∧ nlmsgOk b p len ∧
      nlmsgNext b p len =
        (p + (m.encode seqId).length, len - .ofNat (m.encode seqId).length) := by
  have hle := m.len_le_length_encode seqId
  have hlt : m.len < 2 ^ 32 := by
    simp only [nlBufSize] at hsmall
    omega
  have htoNat : (nlmsgLen b p).toNat = m.len := by
    rw [(NlMsg.of_stored h).1, UInt32.toNat_ofNat', Nat.mod_eq_of_lt hlt]
  have halign : (nlmsgAlign (nlmsgLen b p)).toNat = (m.encode seqId).length := by
    rw [nlmsgAlign_toNat (by simp only [nlBufSize] at hsmall; omega), htoNat,
      NlMsg.length_encode]
  have hsixteen := m.sixteen_le_len
  refine ⟨htoNat, ⟨?_, ?_, ?_⟩, ?_⟩
  · exact UInt32.le_iff_toNat_le.mpr (hsixteen.trans (hle.trans hlen))
  · exact UInt32.le_iff_toNat_le.mpr (htoNat ▸ hsixteen)
  · exact UInt32.le_iff_toNat_le.mpr (htoNat ▸ hle.trans hlen)
  · rw [nlmsgNext, halign, ← halign, UInt32.ofNat_toNat]

/-- What the loop does with a message. -/
theorem scanMessages_cons {m : LinkMsg} (h : Stored b p (m.msg.encode seqId))
    (hlen : (m.msg.encode seqId).length ≤ len.toNat) (hsmall : len.toNat ≤ nlBufSize)
    (fuel : Nat) : scanMessages b ifiType (fuel + 1) p len s =
      if skipped b p ifiType then
        scanMessages b ifiType fuel (p + (m.msg.encode seqId).length)
          (len - .ofNat (m.msg.encode seqId).length) s
      else (scanAttrs b p (fuel + 1) (p + 32) s).bind fun s =>
        scanMessages b ifiType fuel (p + (m.msg.encode seqId).length)
          (len - .ofNat (m.msg.encode seqId).length) s := by
  obtain ⟨-, hok, hnext⟩ := nlmsg_stored h hlen hsmall
  have hdone : nlmsgType b p ≠ nlmsgDone := by
    rw [(NlMsg.of_stored h).2.1]
    exact m.type_ne.2
  simp only [scanMessages, if_pos hok, if_neg hdone, hnext]

theorem skipped_other {m : NlMsg} (h : Stored b p (m.encode seqId)) (htype : m.type ≠ rtmNewlink) :
    skipped b p ifiType := by
  refine .inl ?_
  rw [(NlMsg.of_stored h).2.1]
  exact htype

theorem skipped_link {l : Link} (h : Stored b p (l.msg.encode seqId)) :
    skipped b p ifiType ↔ ¬l.Requested ifiType := by
  rw [skipped, (NlMsg.of_stored h).2.1, (Link.of_stored h).1, Link.Requested, not_or]
  exact or_iff_right (not_not.mpr rfl)

/-- The attributes of a link in memory: the loop comes to their end, and goes beyond it exactly if
`RTA_OK` holds there. -/
theorem scanAttrs_link {l : Link} (h : Stored b p (l.msg.encode seqId))
    (hlen : (nlmsgLen b p).toNat = l.msg.len) (hs : s.Found found) :
    (¬rtaOk b (p + l.msg.len) (nlmsgLen b p - 32) → ∃ s' : LinkScan,
      s'.Found (found ++ l.descs) ∧
        ∀ fuel > l.attrs.length, scanAttrs b p fuel (p + 32) s = some s') ∧
    (rtaOk b (p + l.msg.len) (nlmsgLen b p - 32) →
      ∀ fuel s', scanAttrs b p fuel (p + 32) s = some s' → s'.Strayed) := by
  obtain ⟨-, hindex, hattrs⟩ := Link.of_stored h
  obtain ⟨s₁, hs₁, hrun⟩ := scanAttrs_stored hattrs l.len_lt l.terminated le_rfl
    (by rw [hlen, l.msg_len, ← Nat.add_assoc]; rfl) hs
  rw [hindex] at hs₁
  rw [← hlen]
  constructor
  · intro hquiet
    refine ⟨s₁, hs₁, fun fuel hfuel => ?_⟩
    obtain ⟨k, rfl⟩ := Nat.exists_eq_add_of_lt hfuel
    rw [show l.attrs.length + k + 1 = k + 1 + l.attrs.length by omega, hrun, scanAttrs,
      if_neg hquiet]
  · intro hok fuel s' hs'
    have hmore := scanAttrs_add hs' l.attrs.length
    rw [hrun] at hmore
    exact scanAttrs_strayed hok hmore

theorem encodeAll_cons (seqId : UInt32) (m : LinkMsg) (ms : List LinkMsg) :
    encodeAll seqId (m :: ms) = m.msg.encode seqId ++ encodeAll seqId ms :=
  List.flatMap_cons

/-- **One message.** The loop goes on with the next one and the name entered, or it strays. -/
theorem scanMessages_head (ifiType : UInt16) {m : LinkMsg} (h : Stored b p (m.msg.encode seqId))
    (hlen : (m.msg.encode seqId).length ≤ len.toNat) (hsmall : len.toNat ≤ nlBufSize)
    (hs : s.Found found) :
    (EndQuiet b ifiType p m → ∃ N s₁, s₁.Found (found ++ m.descs ifiType) ∧
      ∀ fuel ≥ N, scanMessages b ifiType (fuel + 1) p len s =
        scanMessages b ifiType fuel (p + (m.msg.encode seqId).length)
          (len - .ofNat (m.msg.encode seqId).length) s₁) ∧
    (¬EndQuiet b ifiType p m → ∀ fuel p' s',
      scanMessages b ifiType fuel p len s = some (p', s') → s'.Strayed) := by
  by_cases hreq : ∃ l, m = .link l ∧ l.Requested ifiType
  · obtain ⟨l, rfl, hl⟩ := hreq
    have hskip : ¬skipped b p ifiType := fun hno => (skipped_link h).mp hno hl
    have hdescs : LinkMsg.descs ifiType (.link l) = l.descs := if_pos hl
    have hend : EndQuiet b ifiType p (.link l) ↔
        ¬rtaOk b (p + l.msg.len) (nlmsgLen b p - 32) :=
      ⟨fun hq => hq l rfl hl, fun hq l' hl' _ => LinkMsg.link.inj hl' ▸ hq⟩
    obtain ⟨hnl, -, -⟩ := nlmsg_stored h hlen hsmall
    obtain ⟨hquiet, hstray⟩ := scanAttrs_link h hnl hs
    rw [hend, hdescs]
    constructor
    · intro hok
      obtain ⟨s₁, hs₁, hattrs⟩ := hquiet hok
      refine ⟨l.attrs.length, s₁, hs₁, fun fuel hfuel => ?_⟩
      rw [scanMessages_cons h hlen hsmall, if_neg hskip, hattrs _ (Nat.lt_succ_of_le hfuel),
        Option.bind_some]
    · intro hok fuel p' s' hrun
      cases fuel with
      | zero => cases hrun
      | succ fuel =>
        rw [scanMessages_cons h hlen hsmall, if_neg hskip] at hrun
        obtain ⟨s₁, hattrs, hrest⟩ := Option.bind_eq_some_iff.mp hrun
        obtain ⟨x, hx, hout⟩ := hstray (not_not.mp hok) _ _ hattrs
        exact ⟨x, scanMessages_looked hrest hx, hout⟩
  · have hskip : skipped b p ifiType := by
      cases m with
      | link l => exact (skipped_link h).mpr fun hl => hreq ⟨l, rfl, hl⟩
      | other m htype => exact skipped_other h htype.2.2
    have hdescs : m.descs ifiType = [] := by
      cases m with
      | link l => exact if_neg fun hl => hreq ⟨l, rfl, hl⟩
      | other m htype => rfl
    have hquiet : EndQuiet b ifiType p m := fun l hl hr => absurd ⟨l, hl, hr⟩ hreq
    refine ⟨fun _ => ⟨0, s, by rwa [hdescs, List.append_nil], fun fuel _ => ?_⟩,
      fun hno => absurd hquiet hno⟩
    rw [scanMessages_cons h hlen hsmall, if_pos hskip]

/-- **The messages of a datagram.** If `RTA_OK` holds behind none of those that are searched, the
loop takes their names and comes to their end; otherwise it strays. -/
theorem scanMessages_stored (ifiType : UInt16) {ms : List LinkMsg}
    (h : Stored b p (encodeAll seqId ms)) (hlen : (encodeAll seqId ms).length ≤ len.toNat)
    (hsmall : len.toNat ≤ nlBufSize) (hs : s.Found found) :
    (EndsQuiet b ifiType seqId p ms → ∃ N s',
      s'.Found (found ++ ms.flatMap (LinkMsg.descs ifiType)) ∧
      ∀ fuel ≥ N, scanMessages b ifiType (fuel + ms.length) p len s =
        scanMessages b ifiType fuel (p + (encodeAll seqId ms).length)
          (len - .ofNat (encodeAll seqId ms).length) s') ∧
    (¬EndsQuiet b ifiType seqId p ms → ∀ fuel p' s',
      scanMessages b ifiType fuel p len s = some (p', s') → s'.Strayed) := by
  induction ms generalizing p len s found with
  | nil =>
    refine ⟨fun _ => ⟨0, s, by simpa using hs, fun fuel _ => ?_⟩, fun hno => absurd trivial hno⟩
    simp [encodeAll]
  | cons m ms ih =>
    rw [encodeAll_cons] at h hlen ⊢
    obtain ⟨hm, hms⟩ := stored_append h
    rw [List.length_append] at hlen
    have hlen_m : (m.msg.encode seqId).length ≤ len.toNat := by omega
    have hofNat : (UInt32.ofNat (m.msg.encode seqId).length).toNat =
        (m.msg.encode seqId).length :=
      toNat_ofNat_of_le (by omega)
    have hrest : (len - .ofNat (m.msg.encode seqId).length).toNat =
        len.toNat - (m.msg.encode seqId).length := by
      rw [UInt32.toNat_sub_of_le _ _ (UInt32.le_iff_toNat_le.mpr (by omega)), hofNat]
    have hplace : p + (m.msg.encode seqId ++ encodeAll seqId ms).length =
        p + (m.msg.encode seqId).length + (encodeAll seqId ms).length := by
      rw [List.length_append, Nat.add_assoc]
    have hleft : len - .ofNat (m.msg.encode seqId ++ encodeAll seqId ms).length =
        len - .ofNat (m.msg.encode seqId).length - .ofNat (encodeAll seqId ms).length := by
      rw [List.length_append, UInt32.ofNat_add]
      grind
    rw [hplace, hleft]
    have hlen_rest : (encodeAll seqId ms).length ≤
        (len - .ofNat (m.msg.encode seqId).length).toNat := by omega
    have hsmall_rest : (len - .ofNat (m.msg.encode seqId).length).toNat ≤ nlBufSize := by omega
    obtain ⟨hgood, hbad⟩ := scanMessages_head ifiType hm hlen_m hsmall hs
    by_cases hquiet : EndQuiet b ifiType p m
    · obtain ⟨N, s₁, hs₁, hgo⟩ := hgood hquiet
      obtain ⟨hgood', hbad'⟩ := ih hms hlen_rest hsmall_rest hs₁
      constructor
      · intro hends
        obtain ⟨N', s', hs', hgo'⟩ := hgood' hends.2
        refine ⟨max N N', s', ?_, fun fuel hfuel => ?_⟩
        · rw [List.flatMap_cons, ← List.append_assoc]
          exact hs'
        · rw [List.length_cons, ← Nat.add_assoc, hgo _ (by omega), hgo' fuel (by omega)]
      · intro hends fuel p' s' hrun
        have hmore := scanMessages_add hrun (N + 1)
        rw [← Nat.add_assoc, hgo _ (by omega)] at hmore
        exact hbad' (fun hrest => hends ⟨hquiet, hrest⟩) _ p' s' hmore
    · exact ⟨fun hends => absurd hends.1 hquiet, fun _ => hbad hquiet⟩

/-- A datagram whose messages are all there is: nothing is left behind them. -/
theorem scanMessages_datagram (ifiType : UInt16) {ms : List LinkMsg}
    (h : Stored b 0 (encodeAll seqId ms)) (hsize : (encodeAll seqId ms).length ≤ nlBufSize)
    (hs : s.Found found) :
    (EndsQuiet b ifiType seqId 0 ms → ∃ N s',
      s'.Found (found ++ ms.flatMap (LinkMsg.descs ifiType)) ∧ ∀ fuel ≥ N,
        scanMessages b ifiType fuel 0 (.ofNat (encodeAll seqId ms).length) s =
          some ((encodeAll seqId ms).length, s')) ∧
    (¬EndsQuiet b ifiType seqId 0 ms → ∀ fuel p' s',
      scanMessages b ifiType fuel 0 (.ofNat (encodeAll seqId ms).length) s = some (p', s') →
        s'.Strayed) := by
  have hofNat : (UInt32.ofNat (encodeAll seqId ms).length).toNat =
      (encodeAll seqId ms).length :=
    toNat_ofNat_of_le hsize
  obtain ⟨hgood, hbad⟩ := scanMessages_stored ifiType h hofNat.ge
    (hofNat.le.trans hsize) hs
  refine ⟨fun hends => ?_, hbad⟩
  obtain ⟨N, s', hs', hgo⟩ := hgood hends
  refine ⟨N + 1 + ms.length, s', hs', fun fuel hfuel => ?_⟩
  obtain ⟨k, rfl⟩ := Nat.exists_eq_add_of_le hfuel
  have hempty : ¬nlmsgOk b (0 + (encodeAll seqId ms).length)
      (.ofNat (encodeAll seqId ms).length - .ofNat (encodeAll seqId ms).length) := by
    rw [UInt32.sub_self]
    exact fun hok => absurd hok.1 (by decide)
  rw [show N + 1 + ms.length + k = N + k + 1 + ms.length by omega, hgo _ (by omega), scanMessages,
    if_neg hempty, Nat.zero_add]

end

/-! ## Datagrams -/

theorem linkLoop_looked {ifiType : UInt16} {seqId : UInt32} {fuel : Nat}
    {sock : List (List UInt8)} {buf : Buf} {s s' : LinkScan} {r : Int}
    (h : linkLoop ifiType seqId fuel sock buf s = some (r, s')) : s.looked ⊆ s'.looked := by
  induction fuel generalizing sock buf s with
  | zero => cases h
  | succ fuel ih =>
    obtain ⟨recv, -, h⟩ := Option.bind_eq_some_iff.mp h
    split_ifs at h
    · obtain ⟨-, rfl⟩ := Prod.mk.inj (Option.some.inj h)
      exact List.Subset.refl _
    · obtain ⟨⟨p, s₁⟩, hscan, h⟩ := Option.bind_eq_some_iff.mp h
      have hlooked := scanMessages_looked hscan
      simp only at h
      split_ifs at h
      · obtain ⟨-, rfl⟩ := Prod.mk.inj (Option.some.inj h)
        exact hlooked
      · exact fun x hx => ih h (hlooked hx)

theorem strayed_of_rest {ifiType : UInt16} {seqId : UInt32} {fuel p : Nat}
    {sock : List (List UInt8)} {b : Buf} {s s' : LinkScan} {r : Int} (hs : s.Strayed)
    (h : (if nlmsgType b p = nlmsgDone then some ((s.ifList.length : Int), s)
      else linkLoop ifiType seqId fuel sock b s) = some (r, s')) : s'.Strayed := by
  obtain ⟨x, hx, hout⟩ := hs
  split_ifs at h
  · obtain ⟨-, rfl⟩ := Prod.mk.inj (Option.some.inj h)
    exact ⟨x, hx, hout⟩
  · exact ⟨x, linkLoop_looked h hx, hout⟩

theorem linkLoop_add {ifiType : UInt16} {seqId : UInt32} {fuel : Nat} {sock : List (List UInt8)}
    {buf : Buf} {s : LinkScan} {r : Int × LinkScan}
    (h : linkLoop ifiType seqId fuel sock buf s = some r) (k : Nat) :
    linkLoop ifiType seqId (fuel + k) sock buf s = some r := by
  induction fuel generalizing sock buf s with
  | zero => cases h
  | succ fuel ih =>
    obtain ⟨recv, hrecv, h⟩ := Option.bind_eq_some_iff.mp h
    rw [Nat.succ_add, linkLoop, hrecv, Option.bind_some]
    split_ifs at h ⊢ with hneg
    · exact h
    · obtain ⟨⟨p, s₁⟩, hscan, h⟩ := Option.bind_eq_some_iff.mp h
      have hscan' := scanMessages_add hscan k
      rw [Nat.succ_add] at hscan'
      rw [hscan', Option.bind_some]
      simp only at h ⊢
      split_ifs at h ⊢
      · exact h
      · exact ih h

/-- The reading of the datagrams `init` and then the last one meets no attribute behind a message.
Where what lies in the buffer behind a datagram looks like `NLMSG_DONE`, the reading ends there, and
no link may be left to enter; `found` are the links so far. -/
def DumpQuiet (ifiType : UInt16) (r : LinkReply) :
    List (List LinkMsg) → List IfDesc → Buf → Prop
  | [], _, buf =>
    EndsQuiet (memcpy buf 0 r.lastBytes) ifiType r.seqId 0 r.last
  | ms :: init, found, buf =>
    let buf := memcpy buf 0 (encodeAll r.seqId ms)
    let found := found ++ ms.flatMap (LinkMsg.descs ifiType)
    EndsQuiet buf ifiType r.seqId 0 ms ∧
      if nlmsgType buf (encodeAll r.seqId ms).length = nlmsgDone then
        nlMaxIfaces ≤ found.length ∨ (init.flatten ++ r.last).flatMap (LinkMsg.descs ifiType) = []
      else DumpQuiet ifiType r init found buf

namespace LinkReply

variable {r : LinkReply} {ifiType : UInt16} {buf : Buf} {s : LinkScan} {found : List IfDesc}

theorem scanMessages_done {b : Buf} {seqId : UInt32} {p : Nat} {len : UInt32}
    (h : Stored b p (r.done.encode seqId)) (hlen : (r.done.encode seqId).length ≤ len.toNat)
    (hsmall : len.toNat ≤ nlBufSize) (fuel : Nat) :
    scanMessages b ifiType (fuel + 1) p len s = some (p, s) := by
  obtain ⟨-, hok, -⟩ := nlmsg_stored h hlen hsmall
  have hdone : nlmsgType b p = nlmsgDone := (NlMsg.of_stored h).2.1.trans r.done_type
  rw [scanMessages, if_pos hok, if_pos hdone]

/-- The messages of the last datagram, when it is received with its length. -/
theorem scanMessages_last (ifiType : UInt16) {b : Buf} (h : Stored b 0 r.lastBytes)
    (hs : s.Found found) :
    (EndsQuiet b ifiType r.seqId 0 r.last → ∃ N s',
      s'.Found (found ++ r.last.flatMap (LinkMsg.descs ifiType)) ∧ ∀ fuel ≥ N,
        scanMessages b ifiType fuel 0 (.ofNat r.lastBytes.length) s =
          some ((encodeAll r.seqId r.last).length, s')) ∧
    (¬EndsQuiet b ifiType r.seqId 0 r.last → ∀ fuel p' s',
      scanMessages b ifiType fuel 0 (.ofNat r.lastBytes.length) s = some (p', s') →
        s'.Strayed) := by
  have hsize : r.lastBytes.length ≤ nlBufSize := r.size_last
  have hlen : r.lastBytes.length =
      (encodeAll r.seqId r.last).length + (r.done.encode r.seqId).length := List.length_append
  have hofNat := toNat_ofNat_of_le hsize
  obtain ⟨hlast, hdone⟩ := stored_append h
  have hle : (encodeAll r.seqId r.last).length ≤ (UInt32.ofNat r.lastBytes.length).toNat := by
    omega
  obtain ⟨hgood, hbad⟩ := scanMessages_stored ifiType hlast hle (hofNat.le.trans hsize) hs
  refine ⟨fun hends => ?_, hbad⟩
  obtain ⟨N, s', hs', hgo⟩ := hgood hends
  refine ⟨N + 1 + r.last.length, s', hs', fun fuel hfuel => ?_⟩
  obtain ⟨k, rfl⟩ := Nat.exists_eq_add_of_le hfuel
  have hleft : UInt32.ofNat r.lastBytes.length - .ofNat (encodeAll r.seqId r.last).length =
      .ofNat (r.done.encode r.seqId).length := by
    rw [hlen, UInt32.ofNat_add]
    grind
  have hdoneNat : (UInt32.ofNat (r.done.encode r.seqId).length).toNat =
      (r.done.encode r.seqId).length := toNat_ofNat_of_le (by omega)
  rw [show N + 1 + r.last.length + k = N + k + 1 + r.last.length by omega, hgo _ (by omega),
    hleft, scanMessages_done hdone hdoneNat.ge (by omega), Nat.zero_add]

/-- A datagram that is not the last one. -/
theorem linkLoop_datagram (ifiType : UInt16) {ms : List LinkMsg} (hne : ms ≠ [])
    (hsize : (encodeAll r.seqId ms).length ≤ nlBufSize) (sock : List (List UInt8)) (buf : Buf)
    (s : LinkScan) (fuel : Nat) :
    linkLoop ifiType r.seqId (fuel + 1) (encodeAll r.seqId ms :: sock) buf s =
      (scanMessages (memcpy buf 0 (encodeAll r.seqId ms)) ifiType (fuel + 1) 0
        (.ofNat (encodeAll r.seqId ms).length) s).bind fun (p, s) =>
          if nlmsgType (memcpy buf 0 (encodeAll r.seqId ms)) p = nlmsgDone then
            some ((s.ifList.length : Int), s)
          else linkLoop ifiType r.seqId fuel sock (memcpy buf 0 (encodeAll r.seqId ms)) s := by
  obtain ⟨m, ms, rfl⟩ := List.exists_cons_of_ne_nil hne
  rw [encodeAll_cons] at hsize ⊢
  rw [linkLoop, readNetlinkRecv_datagram hsize m.type_ne.1, if_neg m.type_ne.2]
  rfl

/-- `NLMSG_DONE` alone counts as no bytes. -/
theorem readNetlinkRecv_last (r : LinkReply) (buf : Buf) :
    readNetlinkRecv [r.lastBytes] buf r.seqId false =
      some ⟨if r.last = [] then 0 else r.lastBytes.length, [], memcpy buf 0 r.lastBytes⟩ := by
  have hsize := r.size_last
  have hbytes : r.lastBytes = encodeAll r.seqId r.last ++ r.done.encode r.seqId := rfl
  rw [hbytes]
  cases hlast : r.last with
  | nil =>
    rw [hlast] at hsize
    have herr : r.done.type ≠ nlmsgError := by
      rw [r.done_type]
      decide
    have hnil : encodeAll r.seqId [] ++ r.done.encode r.seqId = r.done.encode r.seqId ++ [] := by
      simp [encodeAll]
    rw [hnil] at hsize ⊢
    rw [readNetlinkRecv_datagram hsize herr, if_pos r.done_type, if_pos rfl]
  | cons m ms =>
    rw [hlast, encodeAll_cons, List.append_assoc] at hsize
    rw [encodeAll_cons, List.append_assoc, readNetlinkRecv_datagram hsize m.type_ne.1,
      if_neg m.type_ne.2, if_neg (List.cons_ne_nil m ms)]

/-- The last datagram: there the reading ends. -/
theorem linkLoop_last (ifiType : UInt16) (r : LinkReply) (buf : Buf) (hs : s.Found found) :
    (DumpQuiet ifiType r [] found buf → ∃ N s',
      s'.Found (found ++ r.last.flatMap (LinkMsg.descs ifiType)) ∧ ∀ fuel ≥ N,
        linkLoop ifiType r.seqId fuel [r.lastBytes] buf s = some (s'.ifList.length, s')) ∧
    (¬DumpQuiet ifiType r [] found buf → ∀ fuel x s',
      linkLoop ifiType r.seqId fuel [r.lastBytes] buf s = some (x, s') → s'.Strayed) := by
  have hstored : Stored (memcpy buf 0 r.lastBytes) 0 r.lastBytes := stored_memcpy _ _ _
  have hdone : nlmsgType (memcpy buf 0 r.lastBytes) (encodeAll r.seqId r.last).length =
      nlmsgDone := by
    have := (NlMsg.of_stored (stored_append hstored).2).2.1
    rw [Nat.zero_add] at this
    exact this.trans r.done_type
  by_cases hempty : r.last = []
  · have hquiet : DumpQuiet ifiType r [] found buf := by
      rw [DumpQuiet, hempty]
      trivial
    refine ⟨fun _ => ⟨1, s, by simpa [hempty] using hs, fun fuel hfuel => ?_⟩,
      fun hno => absurd hquiet hno⟩
    obtain ⟨k, rfl⟩ := Nat.exists_eq_add_of_le' hfuel
    have hno : ¬nlmsgOk (memcpy buf 0 r.lastBytes) 0 (.ofNat (0 : Int).toNat) := fun hok =>
      absurd hok.1 (by decide)
    rw [hempty] at hdone
    rw [linkLoop, readNetlinkRecv_last, if_pos hempty, Option.bind_some, if_neg (Int.lt_irrefl 0),
      scanMessages, if_neg hno, Option.bind_some]
    exact if_pos hdone
  · obtain ⟨hgood, hbad⟩ := scanMessages_last ifiType hstored hs
    have hloop : ∀ fuel, linkLoop ifiType r.seqId (fuel + 1) [r.lastBytes] buf s =
        (scanMessages (memcpy buf 0 r.lastBytes) ifiType (fuel + 1) 0
          (.ofNat r.lastBytes.length) s).bind fun (p, s) =>
            if nlmsgType (memcpy buf 0 r.lastBytes) p = nlmsgDone then
              some ((s.ifList.length : Int), s)
            else linkLoop ifiType r.seqId fuel [] (memcpy buf 0 r.lastBytes) s := fun fuel => by
      rw [linkLoop, readNetlinkRecv_last, if_neg hempty]
      rfl
    constructor
    · intro hquiet
      obtain ⟨N, s', hs', hgo⟩ := hgood hquiet
      refine ⟨N + 1, s', hs', fun fuel hfuel => ?_⟩
      obtain ⟨k, rfl⟩ := Nat.exists_eq_add_of_le' ((Nat.succ_pos N).trans_le hfuel)
      rw [hloop, hgo _ (by omega), Option.bind_some]
      exact if_pos hdone
    · intro hquiet fuel x s' hrun
      cases fuel with
      | zero => cases hrun
      | succ fuel =>
        rw [hloop] at hrun
        obtain ⟨⟨p, s₁⟩, hscan, hrest⟩ := Option.bind_eq_some_iff.mp hrun
        exact strayed_of_rest (hbad hquiet _ _ _ hscan) hrest

/-- No link that is left would be entered. -/
theorem found_append_iff {rest : List IfDesc} (hs : s.Found found) :
    s.Found (found ++ rest) ↔ nlMaxIfaces ≤ found.length ∨ rest = [] := by
  simp only [nlMaxIfaces]
  constructor
  · intro h
    have heq := congrArg List.length (hs.ifList.symm.trans h.ifList)
    simp only [nlMaxIfaces, List.length_take, List.length_append] at heq
    by_cases hfull : 4 ≤ found.length
    · exact .inl hfull
    · exact .inr (List.length_eq_zero_iff.mp (by omega))
  · rintro (hfull | rfl)
    · exact ⟨by rw [hs.ifList, List.take_append_of_le_length hfull], hs.inside⟩
    · rwa [List.append_nil]

/-- A datagram in whose reading something is looked at behind a message. -/
theorem linkLoop_strayed {ms : List LinkMsg} (hne : ms ≠ [])
    (hsize : (encodeAll r.seqId ms).length ≤ nlBufSize) {sock : List (List UInt8)}
    (hs : s.Found found)
    (hends : ¬EndsQuiet (memcpy buf 0 (encodeAll r.seqId ms)) ifiType r.seqId 0 ms) {fuel : Nat}
    {x : Int} {s' : LinkScan}
    (hrun : linkLoop ifiType r.seqId fuel (encodeAll r.seqId ms :: sock) buf s = some (x, s')) :
    s'.Strayed := by
  cases fuel with
  | zero => cases hrun
  | succ fuel =>
    rw [linkLoop_datagram ifiType hne hsize] at hrun
    obtain ⟨⟨p, s₁⟩, hscan, hrest⟩ := Option.bind_eq_some_iff.mp hrun
    obtain ⟨-, hbad⟩ := scanMessages_datagram ifiType (stored_memcpy _ _ _) hsize hs
    exact strayed_of_rest (hbad hends _ _ _ hscan) hrest

/-- A datagram that is read quietly: its links are found, and the loop goes on behind it, with any
fuel from some on, and with the fuel there is whenever it comes to a result. -/
theorem linkLoop_quiet {ms : List LinkMsg} (hne : ms ≠ [])
    (hsize : (encodeAll r.seqId ms).length ≤ nlBufSize) (sock : List (List UInt8))
    (hs : s.Found found)
    (hends : EndsQuiet (memcpy buf 0 (encodeAll r.seqId ms)) ifiType r.seqId 0 ms) :
    ∃ (N : Nat) (s₁ : LinkScan) (next : Nat → Option (Int × LinkScan)),
      s₁.Found (found ++ ms.flatMap (LinkMsg.descs ifiType)) ∧
      (∀ fuel, next fuel = if nlmsgType (memcpy buf 0 (encodeAll r.seqId ms))
          (encodeAll r.seqId ms).length = nlmsgDone then some ((s₁.ifList.length : Int), s₁)
        else linkLoop ifiType r.seqId fuel sock (memcpy buf 0 (encodeAll r.seqId ms)) s₁) ∧
      (∀ fuel ≥ N, linkLoop ifiType r.seqId (fuel + 1) (encodeAll r.seqId ms :: sock) buf s =
        next fuel) ∧
      ∀ fuel x, linkLoop ifiType r.seqId fuel (encodeAll r.seqId ms :: sock) buf s = some x →
        ∃ k, next k = some x := by
  obtain ⟨hgood, -⟩ := scanMessages_datagram ifiType (stored_memcpy buf 0 _) hsize hs
  obtain ⟨N, s₁, hs₁, hgo⟩ := hgood hends
  refine ⟨N, s₁, _, hs₁, fun _ => rfl, fun fuel hfuel => ?_, fun fuel x hrun => ?_⟩
  · rw [linkLoop_datagram ifiType hne hsize, hgo _ (by omega), Option.bind_some]
  · cases fuel with
    | zero => cases hrun
    | succ fuel =>
      rw [linkLoop_datagram ifiType hne hsize] at hrun
      obtain ⟨q, hscan, hrest⟩ := Option.bind_eq_some_iff.mp hrun
      -- with more fuel the messages are scanned with the same result
      have hmore := scanMessages_add hscan N
      rw [hgo _ (by omega)] at hmore
      obtain rfl := Option.some.inj hmore
      exact ⟨fuel, hrest⟩

/-- **The datagrams.** -/
theorem linkLoop_datagrams (ifiType : UInt16) (r : LinkReply) {init : List (List LinkMsg)}
    (hne : ∀ ms ∈ init, ms ≠ []) (hsize : ∀ ms ∈ init, (encodeAll r.seqId ms).length ≤ nlBufSize)
    (buf : Buf) (hs : s.Found found) :
    (DumpQuiet ifiType r init found buf → ∃ N s',
      s'.Found (found ++ (init.flatten ++ r.last).flatMap (LinkMsg.descs ifiType)) ∧ ∀ fuel ≥ N,
        linkLoop ifiType r.seqId fuel (init.map (encodeAll r.seqId) ++ [r.lastBytes]) buf s =
          some (s'.ifList.length, s')) ∧
    (¬DumpQuiet ifiType r init found buf → ∀ fuel x s',
      linkLoop ifiType r.seqId fuel (init.map (encodeAll r.seqId) ++ [r.lastBytes]) buf s =
        some (x, s') →
          ¬s'.Found (found ++ (init.flatten ++ r.last).flatMap (LinkMsg.descs ifiType))) := by
  induction init generalizing s found buf with
  | nil =>
    obtain ⟨hgood, hbad⟩ := linkLoop_last ifiType r buf hs
    exact ⟨hgood, fun hquiet fuel x s' hrun hfound =>
      hfound.not_strayed (hbad hquiet fuel x s' hrun)⟩
  | cons ms init ih =>
    have hms := hne ms List.mem_cons_self
    have hmsize := hsize ms List.mem_cons_self
    have hall : found ++ ((ms :: init).flatten ++ r.last).flatMap (LinkMsg.descs ifiType) =
        found ++ ms.flatMap (LinkMsg.descs ifiType) ++
          (init.flatten ++ r.last).flatMap (LinkMsg.descs ifiType) := by
      rw [List.flatten_cons, List.append_assoc, List.flatMap_append, List.append_assoc]
    rw [hall, List.map_cons, List.cons_append, DumpQuiet]
    by_cases hends : EndsQuiet (memcpy buf 0 (encodeAll r.seqId ms)) ifiType r.seqId 0 ms
    swap
    · exact ⟨fun hquiet => absurd hquiet.1 hends, fun _ fuel x s' hrun hfound =>
        hfound.not_strayed (linkLoop_strayed hms hmsize hs hends hrun)⟩
    obtain ⟨N, s₁, next, hs₁, hnext, hgo, hback⟩ := linkLoop_quiet hms hmsize
      (init.map (encodeAll r.seqId) ++ [r.lastBytes]) hs hends
    obtain ⟨hgood, hbad⟩ := ih (fun x hx => hne x (List.mem_cons_of_mem ms hx))
      (fun x hx => hsize x (List.mem_cons_of_mem ms hx)) (memcpy buf 0 (encodeAll r.seqId ms)) hs₁
    by_cases hdone : nlmsgType (memcpy buf 0 (encodeAll r.seqId ms))
        (encodeAll r.seqId ms).length = nlmsgDone
    · -- the bytes behind the datagram end the loop: the links found so far have to be all
      simp only [if_pos hdone] at hnext ⊢
      constructor
      · rintro ⟨-, hleft⟩
        refine ⟨N + 1, s₁, (found_append_iff hs₁).mpr hleft, fun fuel hfuel => ?_⟩
        obtain ⟨k, rfl⟩ := Nat.exists_eq_add_of_le' ((Nat.succ_pos N).trans_le hfuel)
        exact (hgo k (by omega)).trans (hnext k)
      · intro hquiet fuel x s' hrun hfound
        obtain ⟨k, hk⟩ := hback fuel _ hrun
        rw [hnext] at hk
        obtain ⟨-, rfl⟩ := Prod.mk.inj (Option.some.inj hk)
        exact hquiet ⟨hends, (found_append_iff hs₁).mp hfound⟩
    · simp only [if_neg hdone] at hnext ⊢
      constructor
      · rintro ⟨-, hquiet⟩
        obtain ⟨N', s', hs', hgo'⟩ := hgood hquiet
        refine ⟨max N N' + 1, s', hs', fun fuel hfuel => ?_⟩
        obtain ⟨k, rfl⟩ := Nat.exists_eq_add_of_le' ((Nat.succ_pos _).trans_le hfuel)
        rw [hgo k (by omega), hnext, hgo' k (by omega)]
      · intro hquiet fuel x s' hrun hfound
        obtain ⟨k, hk⟩ := hback fuel _ hrun
        rw [hnext] at hk
        exact hbad (fun hno => hquiet ⟨hends, hno⟩) k x s' hk hfound

end LinkReply

/-- The function returns how many links are entered, these are the first ones of the reply, and
every attribute that is looked at is one of the message it is looked for in. -/
def LinkListExact (ifiType : UInt16) (r : LinkReply) (buf : Buf) : Prop :=
  ∃ fuel s, nlLinkList ifiType 0 r.seqId fuel r.datagrams buf =
      some (((min (r.descs ifiType).length nlMaxIfaces : Nat) : Int), s) ∧
    s.ifList = (r.descs ifiType).take nlMaxIfaces ∧ ∀ x ∈ s.looked, x.Inside

/-- **The list of interfaces** is exact if and only if the reading is quiet. -/
theorem link_list_exact (ifiType : UInt16) (r : LinkReply) (buf : Buf) :
    LinkListExact ifiType r buf ↔ DumpQuiet ifiType r r.init [] buf := by
  have hstart : LinkScan.Found ⟨[], []⟩ [] := ⟨rfl, fun x hx => absurd hx List.not_mem_nil⟩
  obtain ⟨hgood, hbad⟩ :=
    LinkReply.linkLoop_datagrams ifiType r r.nonempty r.size_init buf hstart
  constructor
  · rintro ⟨fuel, s, hrun, hlist, hinside⟩
    by_contra hquiet
    exact hbad hquiet fuel _ s hrun ⟨hlist, hinside⟩
  · intro hquiet
    obtain ⟨N, s, hs, hrun⟩ := hgood hquiet
    refine ⟨N, s, ?_, hs.ifList, hs.inside⟩
    have hlen : s.ifList.length = min (r.descs ifiType).length nlMaxIfaces := by
      rw [hs.ifList, List.length_take, Nat.min_comm]
      rfl
    rw [← hlen]
    exact hrun N le_rfl

/-- A link with the name `eth0`. -/
def linkEth0 : Link where
  flags := 0
  pid := 0
  family := 0
  type := 1
  index := 2
  ifiFlags := 0
  change := 0
  attrs := [⟨iflaIfname, [101, 116, 104, 48, 0]⟩]
  len_lt := by decide
  one_name := by decide
  terminated := by decide

/-- One link, and `NLMSG_DONE` in a datagram of its own. -/
def replyEth0 : LinkReply where
  seqId := 0
  init := [[.link linkEth0]]
  last := []
  done := ⟨nlmsgDone, 0, 0, [0, 0, 0, 0]⟩
  done_type := rfl
  nonempty := by simp
  size_init := by decide
  size_last := by decide

/-- What an earlier reply has left: an attribute with the name `x`, just behind the 44 bytes of the
link. -/
def bufStale : Buf := memcpy (fun _ => 0) 44 [8, 0, 3, 0, 120, 0, 0, 0]

/-- Two interfaces are returned for a reply with one. -/
theorem link_list_stale : ¬LinkListExact 1 replyEth0 bufStale := by
  have hstale : (nlLinkList 1 0 0 9 replyEth0.datagrams bufStale).map Prod.fst = some 2 := by
    decide +kernel
  obtain ⟨⟨x, s⟩, hrun, rfl⟩ := Option.map_eq_some_iff.mp hstale
  rintro ⟨fuel, s', hrun', -⟩
  have hmore := linkLoop_add hrun fuel
  have hmore' := linkLoop_add hrun' 9
  rw [Nat.add_comm] at hmore'
  have hresult : (2 : Int) = ((min (replyEth0.descs 1).length nlMaxIfaces : Nat) : Int) :=
    congrArg Prod.fst (Option.some.inj (hmore.symm.trans hmore'))
  exact absurd hresult (by decide)

end Rhex
