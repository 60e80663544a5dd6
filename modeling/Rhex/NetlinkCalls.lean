import Mathlib
import Rhex.LinkList

/-!
# Netlink calls (`libnetlink`)

The calls by which a wireless interface is found, set up and brought up. Requests to nl80211 go to
the generic socket and those for links to the route socket; each socket is opened by the first
request on it, and the family of nl80211 is looked up by the first request that needs it.

* `netlinkAddattrL` — an attribute is appended to a request.
* `sendNetlinkRequest`, `netlinkRecv` — a request and what is received on a socket.
* `nlGetFamily`, `nl80211Request`, `nlGetWlanList` — the lookup, the request that makes it on its
  own, and the dump of the interfaces.
* `nlWlanSetMonitor`, `nlWlanSetFreq`, `nlLinkUp`, `nlLinkDown` — the setters.

The answer of the kernel to a request is a parameter: the datagrams it puts on the socket, by the
sequence number of the request and by whether the request asks for an acknowledgement.
-/

namespace Rhex

open Memory

/-! ## Requests -/

/-- `NLM_F_REQUEST`. -/
def nlmFRequest : UInt16 := 1

/-- `NLM_F_ACK`. -/
def nlmFAck : UInt16 := 4

/-- `NLM_F_DUMP`. -/
def nlmFDump : UInt16 := 0x300

/-- `nlmsg_flags` of the message at `p`. -/
def nlmsgFlags (b : Buf) (p : Nat) : UInt16 := read16 b (p + 6)

/-- A request that `memset` has cleared, with its header and the first bytes behind it. -/
def nlRequest (len : UInt32) (type flags : UInt16) (pid : UInt32) (payload : List UInt8) : Buf :=
  ofList (le32 len ++ (le16 type ++ (le16 flags ++ (le32 0 ++ (le32 pid ++ payload)))))

/-- `netlink_addattr_l`: its result and the message. -/
def netlinkAddattrL (hdr : Buf) (maxlen : UInt32) (type : UInt16) (attrdata : List UInt8)
    (attrlen : UInt32) : Int × Buf :=
  let len := 4 + attrlen
  let msglen := nlmsgAlign (nlmsgLen hdr 0) + nlmsgAlign len
  if maxlen < msglen then (-1, hdr)
  else
    let rta := (nlmsgAlign (nlmsgLen hdr 0)).toNat
    let hdr := memcpy hdr (rta + 2) (le16 type)
    let hdr := memcpy hdr rta (le16 len.toUInt16)
    let hdr := memcpy hdr (rta + 4) (attrdata.take attrlen.toNat)
    let hdr := memcpy hdr 0 (le32 (nlmsgAlign (nlmsgLen hdr 0)))
    (0, memcpy hdr 0 (le32 (nlmsgLen hdr 0 + nlmsgAlign len)))

/-- `netlink_addattr_u32`. -/
def netlinkAddattrU32 (hdr : Buf) (maxlen : UInt32) (type : UInt16) (value : UInt32) : Int × Buf :=
  netlinkAddattrL hdr maxlen type (le32 value) 4

/-- Attributes are appended up to the first that does not fit. -/
def addattrs (maxlen : UInt32) : List (UInt16 × UInt32) → Buf → Int × Buf
  | [], hdr => (0, hdr)
  | (type, value) :: attrs, hdr =>
    let (result, hdr) := netlinkAddattrU32 hdr maxlen type value
    if result ≠ 0 then (result, hdr) else addattrs maxlen attrs hdr

/-! ## Sockets -/

/-- The protocols of the two sockets. -/
inductive NlProto where
  | route
  | generic
deriving DecidableEq

/-- The static variables of the library. What is unread on a socket is kept with it, and `pid` is
the process. -/
structure NlState where
  sock : NlProto → Option (List (List UInt8))
  nlSeqId : UInt32
  localBuf : Buf
  nl80211fam : Option UInt16
  pid : UInt32

namespace NlState

/-- No socket is open and no family is known. -/
def start (pid : UInt32) : NlState := ⟨fun _ => none, 0, fun _ => 0, none, pid⟩

/-- Datagrams arrive on a socket, if it is open. -/
def deliver (s : NlState) (proto : NlProto) (ds : List (List UInt8)) : NlState :=
  { s with sock := Function.update s.sock proto ((s.sock proto).map (· ++ ds)) }

end NlState

/-- How the opening of a socket ends. -/
inductive SockInit where
  | noSocket
  | noBind
  | opened (fd : Nat)

/-- `init_netlink`. If `bind` fails, the result is 1 and the socket is not kept. -/
def initNetlink (proto : NlProto) (init : SockInit) (s : NlState) : Int × NlState :=
  match init with
  | .noSocket => (-1, s)
  | .noBind => (1, s)
  | .opened fd => (fd, { s with sock := Function.update s.sock proto (some []) })

/-- What a request meets: the socket that may have to be opened, whether `sendmsg` accepts it, and
the answer of the kernel. -/
structure NlIo (α : Type) where
  init : SockInit
  accepted : Bool
  answer : α

/-- The answer as datagrams. -/
abbrev Sending := NlIo (UInt32 → Bool → List (List UInt8))

/-- What a request leaves: its result, `seq_id` and the state. -/
structure NlSent where
  result : Int
  seqId : UInt32
  state : NlState

/-- The socket a request is sent on is there, or is opened. -/
def openSocket (proto : NlProto) (init : SockInit) (s : NlState) : Int × NlState :=
  if (s.sock proto).isSome then (0, s) else initNetlink proto init s

/-- `send_netlink_request`. -/
def sendNetlinkRequest (proto : NlProto) (hdr : Buf) (io : Sending) (s : NlState) : NlSent :=
  let (r, s) := openSocket proto io.init s
  if r < 0 then ⟨r, s.nlSeqId, s⟩
  else
    let hdr := memcpy hdr 8 (le32 s.nlSeqId)
    if io.accepted then
      ⟨0, s.nlSeqId,
        s.deliver proto (io.answer (nlmsgSeq hdr 0) (nlmsgFlags hdr 0 &&& nlmFAck ≠ 0))⟩
    else ⟨-1, s.nlSeqId, s⟩

/-- `read_netlink_recv` on the socket of a protocol. -/
def netlinkRecv (proto : NlProto) (seqId : UInt32) (waitConfirm : Bool) (s : NlState) :
    Option (Int × NlState) :=
  match s.sock proto with
  | none => some (-1, s)
  | some q => (readNetlinkRecv q s.localBuf seqId waitConfirm).map fun recv =>
      (recv.result, { s with
        sock := Function.update s.sock proto (some recv.sock)
        localBuf := recv.buf })

/-! ## The family -/

/-- `GENL_ID_CTRL`. -/
def genlIdCtrl : UInt16 := 0x10

/-- `CTRL_CMD_NEWFAMILY`. -/
def ctrlCmdNewfamily : UInt8 := 1

/-- `CTRL_CMD_GETFAMILY`. -/
def ctrlCmdGetfamily : UInt8 := 3

/-- `CTRL_ATTR_FAMILY_ID`. -/
def ctrlAttrFamilyId : UInt16 := 1

/-- `CTRL_ATTR_FAMILY_NAME`. -/
def ctrlAttrFamilyName : UInt16 := 2

/-- `cmd` of the `struct genlmsghdr` in the message at `p`. -/
def genlCmd (b : Buf) (p : Nat) : UInt8 := b (p + 16)

/-- `*family_id`, and the place of the attribute in `local_buf` that it was set from. -/
structure FamilyVar where
  familyId : UInt16
  source : Option Nat

/-- The loop over the attributes of the message at `msg`; in each round `attr_len` is again the
length of all of them. -/
def familyAttrs (b : Buf) (msg : Nat) : Nat → Nat → Option (Option FamilyVar)
  | 0, _ => none
  | fuel + 1, p =>
    if rtaOk b p (nlmsgLen b msg - 20) then
      if rtaType b p = ctrlAttrFamilyId then some (some ⟨read16 b (p + 4), some p⟩)
      else familyAttrs b msg fuel (rtaNext b p)
    else some none

/-- The loop over the messages. The attributes are looked for behind `IFLA_RTA`, the size of a
`struct ifinfomsg` behind the message's header. -/
def familyMessages (b : Buf) : Nat → Nat → UInt32 → FamilyVar → Option FamilyVar
  | 0, _, _, _ => none
  | fuel + 1, p, len, var =>
    if nlmsgOk b p len then
      if nlmsgType b p = nlmsgDone then some var
      else
        let (next, rest) := nlmsgNext b p len
        if nlmsgType b p ≠ genlIdCtrl ∨ genlCmd b p ≠ ctrlCmdNewfamily then
          familyMessages b fuel next rest var
        else (familyAttrs b p (fuel + 1) (p + 32)).bind fun found =>
          familyMessages b fuel next rest (found.getD var)
    else some var

/-- What `nl_get_family` leaves. -/
structure FamilyResult extends FamilyVar where
  result : Int
  state : NlState

/-- `nl_get_family`. -/
def nlGetFamily (fuel : Nat) (family : List UInt8) (familyId : UInt16) (io : Sending)
    (s : NlState) : Option FamilyResult :=
  let req := nlRequest 20 genlIdCtrl (nlmFRequest ||| nlmFAck) s.pid [ctrlCmdGetfamily, 1]
  let (result, req) := netlinkAddattrL req 40 ctrlAttrFamilyName (family ++ [0])
    (.ofNat (family.length + 1))
  let var : FamilyVar := ⟨familyId, none⟩
  if result ≠ 0 then some ⟨var, result, s⟩
  else
    let sent := sendNetlinkRequest .generic req io s
    if sent.result < 0 then some ⟨var, sent.result, sent.state⟩
    else (netlinkRecv .generic sent.seqId false sent.state).bind fun (result, s) =>
      if result < 0 then some ⟨var, result, s⟩
      else (familyMessages s.localBuf fuel 0 (.ofNat result.toNat) var).map fun var => ⟨var, 0, s⟩

/-- What the lookup of a family meets; `fam` is what the variable it is stored in holds before. -/
structure Lookup where
  io : Sending
  fam : UInt16

/-- `"nl80211"`. -/
def nl80211Name : List UInt8 := [110, 108, 56, 48, 50, 49, 49]

/-- `nl80211_request`. -/
def nl80211Request (fuel : Nat) (hdr : Buf) (lookup : Lookup) (io : Sending) (s : NlState) :
    Option NlSent :=
  let send (fam : UInt16) (s : NlState) :=
    sendNetlinkRequest .generic (memcpy hdr 4 (le16 fam)) io s
  match s.nl80211fam with
  | some fam => some (send fam s)
  | none => (nlGetFamily fuel nl80211Name lookup.fam lookup.io s).map fun found =>
      if found.result ≠ 0 then ⟨found.result, found.state.nlSeqId, found.state⟩
      else send found.familyId { found.state with nl80211fam := some found.familyId }

/-! ## The interfaces -/

/-- `NL80211_CMD_GET_INTERFACE`. -/
def nl80211CmdGetInterface : UInt8 := 5

/-- `NL80211_CMD_NEW_INTERFACE`. -/
def nl80211CmdNewInterface : UInt8 := 7

/-- `NL80211_ATTR_IFINDEX`. -/
def nl80211AttrIfindex : UInt16 := 3

/-- `NL80211_ATTR_IFNAME`. -/
def nl80211AttrIfname : UInt16 := 4

/-- The variables of `nl_get_wlan_list`: `if_list` as far as it is filled, `result` and
`ifindex`. -/
structure WlanScan where
  ifList : List IfDesc
  result : Int
  ifindex : UInt32

/-- One round of the loop over the attributes. -/
def lookWlanAttr (b : Buf) (p : Nat) (x : WlanScan) : WlanScan :=
  let ifindex := if rtaType b p = nl80211AttrIfindex then read32 b (p + 4) else x.ifindex
  if rtaType b p = nl80211AttrIfname ∧ x.ifList.length < nlMaxIfaces then
    let ifList := x.ifList ++ [⟨ifname (slice b (p + 4) (ifNamSiz - 1)), ifindex⟩]
    ⟨ifList, ifList.length, ifindex⟩
  else { x with ifindex }

/-- The loop over the attributes of the message at `msg`. -/
def wlanAttrs (b : Buf) (msg : Nat) : Nat → Nat → WlanScan → Option WlanScan
  | 0, _, _ => none
  | fuel + 1, p, x =>
    if rtaOk b p (nlmsgLen b msg - 20) then
      wlanAttrs b msg fuel (rtaNext b p) (lookWlanAttr b p x)
    else some x

def wlanMessages (b : Buf) : Nat → Nat → UInt32 → WlanScan → Option (Nat × WlanScan)
  | 0, _, _, _ => none
  | fuel + 1, p, len, x =>
    if nlmsgOk b p len then
      if nlmsgType b p = nlmsgDone then some (p, x)
      else
        let (next, rest) := nlmsgNext b p len
        if genlCmd b p ≠ nl80211CmdNewInterface then wlanMessages b fuel next rest x
        else (wlanAttrs b p (fuel + 1) (p + 20) { x with ifindex := 0 }).bind fun x =>
          wlanMessages b fuel next rest x
    else some (p, x)

def wlanLoop (seqId : UInt32) : Nat → WlanScan → NlState → Option (WlanScan × NlState)
  | 0, _, _ => none
  | fuel + 1, x, s =>
    if x.result < 0 then some (x, s)
    else (netlinkRecv .generic seqId false s).bind fun (r, s) =>
      if r < 0 then some ({ x with result := -1 }, s)
      else (wlanMessages s.localBuf (fuel + 1) 0 (.ofNat r.toNat) x).bind fun (p, x) =>
        if nlmsgType s.localBuf p = nlmsgDone then some (x, s)
        else if nlmsgType s.localBuf p = nlmsgError then
          let x := { x with result := nlmsgErr s.localBuf p }
          if x.result ≠ 0 then some (x, s) else wlanLoop seqId fuel x s
        else wlanLoop seqId fuel x s

/-- `nl_get_wlan_list`. -/
def nlGetWlanList (fuel : Nat) (lookup : Lookup) (io : Sending) (s : NlState) :
    Option (WlanScan × NlState) :=
  let req := nlRequest 20 0 (nlmFRequest ||| nlmFAck ||| nlmFDump) 0 [nl80211CmdGetInterface]
  (nl80211Request fuel req lookup io s).bind fun sent =>
    if sent.result < 0 then some (⟨[], -1, 0⟩, sent.state)
    else wlanLoop sent.seqId fuel ⟨[], 0, 0⟩ sent.state

/-! ## The setters -/

/-- `netlink_check_error` on the message at `p`. -/
def netlinkCheckError (b : Buf) : Nat → Nat → UInt32 → Option Int
  | 0, _, _ => none
  | fuel + 1, p, len =>
    if nlmsgOk b p len then
      if nlmsgType b p ≠ nlmsgError then
        let (next, rest) := nlmsgNext b p len
        netlinkCheckError b fuel next rest
      else some (nlmsgErr b p)
    else some 0

/-- What a setter does once its request is made: it waits for the confirmation. -/
def nlConfirm (proto : NlProto) (fuel : Nat) (sent : NlSent) : Option (Int × NlState) :=
  if sent.result < 0 then some (sent.result, sent.state)
  else (netlinkRecv proto sent.seqId true sent.state).bind fun (result, s) =>
    if result < 0 then some (result, s)
    else (netlinkCheckError s.localBuf fuel 0 (.ofNat result.toNat)).map fun result => (result, s)

/-- The request of a setter of nl80211. -/
def genlSetRequest (cmd : UInt8) (maxlen : UInt32) (attrs : List (UInt16 × UInt32)) (fuel : Nat)
    (lookup : Lookup) (io : Sending) (s : NlState) : Option NlSent :=
  let (result, req) :=
    addattrs maxlen attrs (nlRequest 20 0 (nlmFRequest ||| nlmFAck) 0 [cmd])
  if result ≠ 0 then some ⟨result, s.nlSeqId, s⟩
  else nl80211Request fuel req lookup io s

/-- A setter of nl80211, by its command, the size of its request and its attributes. -/
def genlSet (cmd : UInt8) (maxlen : UInt32) (attrs : List (UInt16 × UInt32)) (fuel : Nat)
    (lookup : Lookup) (io : Sending) (s : NlState) : Option (Int × NlState) :=
  (genlSetRequest cmd maxlen attrs fuel lookup io s).bind (nlConfirm .generic fuel)

/-- The attributes that `nl_wlan_set_monitor` sends: `NL80211_ATTR_IFINDEX` and
`NL80211_ATTR_IFTYPE` with `NL80211_IFTYPE_MONITOR`. -/
def monitorAttrs (ifiIndex : UInt32) : List (UInt16 × UInt32) :=
  [(nl80211AttrIfindex, ifiIndex), (5, 6)]

/-- `nl_wlan_set_monitor`; its command is `NL80211_CMD_SET_INTERFACE`. -/
def nlWlanSetMonitor (ifiIndex : UInt32) := genlSet 6 36 (monitorAttrs ifiIndex)

/-- The attributes that `nl_wlan_set_freq` sends: `NL80211_ATTR_IFINDEX`,
`NL80211_ATTR_WIPHY_FREQ`, `NL80211_ATTR_CHANNEL_WIDTH`, `NL80211_ATTR_WIPHY_CHANNEL_TYPE` and
`NL80211_ATTR_CENTER_FREQ1`. -/
def freqAttrs (ifiIndex freq width ht : UInt32) : List (UInt16 × UInt32) :=
  [(nl80211AttrIfindex, ifiIndex), (38, freq), (159, width), (39, ht), (160, freq)]

/-- `nl_wlan_set_freq`; its command is `NL80211_CMD_SET_WIPHY`. -/
def nlWlanSetFreq (ifiIndex freq width ht : UInt32) :=
  genlSet 2 60 (freqAttrs ifiIndex freq width ht)

/-- `RTM_SETLINK`. -/
def rtmSetlink : UInt16 := 19

/-- `IFF_UP`. -/
def iffUp : UInt32 := 1

/-- The `struct ifinfomsg` of `nl_link_updown`. -/
def linkIfinfo (up : Bool) : List UInt8 :=
  [0, 0] ++ (le16 0 ++ (le32 0 ++ (le32 (if up then iffUp else 0) ++ le32 iffUp)))

/-- The request of `nl_link_updown`; `name` are the `IFNAM_SIZE` bytes of `ifname`. -/
def linkUpdownRequest (name : List UInt8) (up : Bool) (io : Sending) (s : NlState) : NlSent :=
  let req := nlRequest 32 rtmSetlink (nlmFRequest ||| nlmFAck) 0 (linkIfinfo up)
  let (result, req) := netlinkAddattrL req 52 iflaIfname name 16
  if result ≠ 0 then ⟨result, s.nlSeqId, s⟩ else sendNetlinkRequest .route req io s

/-- `nl_link_updown`. -/
def nlLinkUpdown (name : List UInt8) (up : Bool) (fuel : Nat) (io : Sending) (s : NlState) :
    Option (Int × NlState) :=
  nlConfirm .route fuel (linkUpdownRequest name up io s)

/-- `nl_link_up`. -/
def nlLinkUp (name : List UInt8) := nlLinkUpdown name true

/-- `nl_link_down`. -/
def nlLinkDown (name : List UInt8) := nlLinkUpdown name false

end Rhex
