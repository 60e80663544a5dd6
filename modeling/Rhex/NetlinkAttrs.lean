import Mathlib
import Rhex.Lib.Run
import Rhex.NetlinkCalls

/-!
# Attributes of a netlink message

`netlink_addattr_l` and `netlink_addattr_u32` append attributes to a message, and a receiver walks
them with `RTA_OK` and `RTA_NEXT`.

* `rtaAttrs` — the attributes that a receiver finds.
* `AttrsAt` — the attributes that lie in a message.
* `netlinkAddattrL_spec` — what a call may do.
* `addattr_roundTrip` — a receiver finds the attributes that were appended.

An attribute is appended at the end of the message, and the length of the message is in its first
four bytes: a message whose own header does not count yet is overwritten.
-/

namespace Rhex

open Memory

/-! ## Walking -/

theorem rtaAlign_eq (b : Buf) (p : Nat) :
    (nlmsgAlign (rtaLen b p).toUInt32).toNat = Align.up 4 (rtaLen b p).toNat := by
  have hlen := (rtaLen b p).toNat_lt
  rw [nlmsgAlign_toNat (by rw [UInt16.toNat_toUInt32]; omega), UInt16.toNat_toUInt32]

/-- The loop `for (; RTA_OK(rta, len); rta = RTA_NEXT(rta, len))` with an `int len`, as the
attributes that it passes. -/
def rtaAttrs (b : Buf) (p : Nat) (len : Int) : List RtAttr :=
  if 4 ≤ len ∧ 4 ≤ (rtaLen b p).toNat ∧ (rtaLen b p).toNat ≤ len then
    ⟨rtaType b p, slice b (p + 4) ((rtaLen b p).toNat - 4)⟩ ::
      rtaAttrs b (rtaNext b p) (len - (nlmsgAlign (rtaLen b p).toUInt32).toNat)
  else []
termination_by len.toNat
decreasing_by
  have := Align.le_up (a := 4) (by decide) (rtaLen b p).toNat
  rw [rtaAlign_eq]
  omega

/-! ## Attributes in memory -/

/-- An attribute lies at `p`; what pads it is not looked at. -/
structure AttrAt (b : Buf) (p : Nat) (a : RtAttr) : Prop where
  len : (rtaLen b p).toNat = a.len
  type : rtaType b p = a.type
  data : Stored b (p + 4) a.data

/-- The attributes lie one behind the other from `p` to `q`. -/
def AttrsAt (b : Buf) : Nat → List RtAttr → Nat → Prop
  | p, [], q => p = q
  | p, a :: attrs, q => AttrAt b p a ∧ AttrsAt b (p + Align.up 4 a.len) attrs q

section

variable {b c : Buf} {p q : Nat} {a : RtAttr} {attrs : List RtAttr}

theorem AttrAt.congr (h : AttrAt b p a) (hc : ∀ i, p ≤ i → i < p + a.len → c i = b i) :
    AttrAt c p a := by
  have hpos : 4 ≤ a.len := Nat.le_add_right 4 _
  have hlen : rtaLen c p = rtaLen b p :=
    read16_congr (slice_congr fun k hk => hc _ (by omega) (by omega))
  refine ⟨by rw [hlen, h.len], ?_, ?_⟩
  · rw [← h.type]
    exact read16_congr (slice_congr fun k hk => hc _ (by omega) (by omega))
  · rw [Stored, slice_congr (c := b) fun k hk => hc _ (by omega) (by rw [RtAttr.len]; omega)]
    exact h.data

theorem AttrsAt.le (h : AttrsAt b p attrs q) : p ≤ q := by
  induction attrs generalizing p with
  | nil => exact h.le
  | cons a attrs ih => exact (Nat.le_add_right _ _).trans (ih h.2)

theorem AttrsAt.congr (h : AttrsAt b p attrs q) (hc : ∀ i, p ≤ i → i < q → c i = b i) :
    AttrsAt c p attrs q := by
  induction attrs generalizing p with
  | nil => exact h
  | cons a attrs ih =>
    have hup := Align.le_up (a := 4) (by decide) a.len
    have hle := h.2.le
    exact ⟨h.1.congr fun i hp hi => hc i hp (by omega), ih h.2 fun i hp hi => hc i (by omega) hi⟩

theorem AttrsAt.append (h : AttrsAt b p attrs q) (ha : AttrAt b q a) :
    AttrsAt b p (attrs ++ [a]) (q + Align.up 4 a.len) := by
  induction attrs generalizing p with
  | nil =>
    obtain rfl := h
    exact ⟨ha, rfl⟩
  | cons x attrs ih => exact ⟨h.1, ih h.2⟩

/-- A receiver finds the attributes that lie there. -/
theorem AttrsAt.rtaAttrs (h : AttrsAt b p attrs q) : rtaAttrs b p (q - p) = attrs := by
  induction attrs generalizing p with
  | nil =>
    obtain rfl := h
    rw [Rhex.rtaAttrs, if_neg (by omega)]
  | cons a attrs ih =>
    obtain ⟨ha, hrest⟩ := h
    have hpos : 4 ≤ a.len := Nat.le_add_right 4 _
    have hup := Align.le_up (a := 4) (by decide) a.len
    have hle := hrest.le
    have hdata : slice b (p + 4) (a.len - 4) = a.data := by
      rw [RtAttr.len, Nat.add_sub_cancel_left]
      exact ha.data
    rw [Rhex.rtaAttrs, rtaNext, rtaAlign_eq, ha.len, ha.type, hdata, if_pos (by omega)]
    rw [show (q : Int) - p - Align.up 4 a.len = q - ((p + Align.up 4 a.len : Nat) : Int) by omega,
      ih hrest]

end

/-! ## Appending -/

/-- A call of one of the two functions. The data that is passed has at least `attrlen` bytes. -/
inductive AttrCall where
  | l (type : UInt16) (attrdata : List UInt8) (attrlen : UInt32)
      (h : attrlen.toNat ≤ attrdata.length)
  | u32 (type : UInt16) (value : UInt32)

namespace AttrCall

/-- `attrlen`, or `sizeof(value)`. -/
def attrlen : AttrCall → UInt32
  | l _ _ attrlen _ => attrlen
  | u32 _ _ => 4

/-- The result of the call, and the message behind it. -/
def run (maxlen : UInt32) (hdr : Buf) : AttrCall → Int × Buf
  | l type attrdata attrlen _ => netlinkAddattrL hdr maxlen type attrdata attrlen
  | u32 type value => netlinkAddattrU32 hdr maxlen type value

/-- The attribute that is to be appended. -/
def attr : AttrCall → RtAttr
  | l type attrdata attrlen _ => ⟨type, attrdata.take attrlen.toNat⟩
  | u32 type value => ⟨type, le32 value⟩

end AttrCall

/-- The fields of an attribute as `netlink_addattr_l` writes them. -/
def putAttr (hdr : Buf) (p : Nat) (type len : UInt16) (data : List UInt8) : Buf :=
  memcpy (memcpy (memcpy hdr (p + 2) (le16 type)) p (le16 len)) (p + 4) data

theorem putAttr_attrAt (hdr : Buf) (p : Nat) (type : UInt16) {len : UInt16} {data : List UInt8}
    (hlen : len.toNat = 4 + data.length) : AttrAt (putAttr hdr p type len data) p ⟨type, data⟩ := by
  constructor
  · have hslice : slice (putAttr hdr p type len data) p 2 = le16 len := by
      rw [putAttr, slice_memcpy_before (by omega)]
      exact slice_memcpy _ p (le16 len)
    rw [rtaLen, read16_of_slice hslice, hlen]
    rfl
  · have hslice : slice (putAttr hdr p type len data) (p + 2) 2 = le16 type := by
      rw [putAttr, slice_memcpy_before (by omega), slice_memcpy_after (by rw [length_le16])]
      exact slice_memcpy _ (p + 2) (le16 type)
    exact read16_of_slice hslice
  · exact stored_memcpy _ _ _

theorem putAttr_others (hdr : Buf) {p i : Nat} (type len : UInt16) (data : List UInt8)
    (h : i < p ∨ p + 4 + data.length ≤ i) : putAttr hdr p type len data i = hdr i := by
  rw [putAttr]
  rcases h with hlt | hge
  · rw [memcpy_of_lt (by omega), memcpy_of_lt (by omega), memcpy_of_lt (by omega)]
  · rw [memcpy_of_ge hge, memcpy_of_ge (by rw [length_le16]; omega),
      memcpy_of_ge (by rw [length_le16]; omega)]

theorem nlmsgLen_put (hdr : Buf) (len : UInt32) : nlmsgLen (memcpy hdr 0 (le32 len)) 0 = len :=
  read32_of_slice (slice_memcpy hdr 0 (le32 len))

/-- What a call of `netlink_addattr_l` that succeeds has done. -/
structure Appended (maxlen : UInt32) (hdr hdr' : Buf) (a : RtAttr) : Prop where
  fits : Align.up 4 (nlmsgLen hdr 0).toNat + Align.up 4 a.len ≤ maxlen.toNat
  len : (nlmsgLen hdr' 0).toNat = Align.up 4 (nlmsgLen hdr 0).toNat + Align.up 4 a.len
  attr : AttrAt hdr' (Align.up 4 (nlmsgLen hdr 0).toNat) a
  others : ∀ i, 4 ≤ i → i < Align.up 4 (nlmsgLen hdr 0).toNat ∨
    Align.up 4 (nlmsgLen hdr 0).toNat + a.len ≤ i → hdr' i = hdr i

/-- The length of an attribute and where it ends, as `netlink_addattr_l` computes them. -/
theorem addattr_lengths {hdr : Buf} {maxlen attrlen : UInt32} (hmax : maxlen.toNat ≤ 65535)
    (hlen : (nlmsgLen hdr 0).toNat ≤ maxlen.toNat) (hattr : attrlen.toNat < 2 ^ 31) :
    (4 + attrlen).toNat = 4 + attrlen.toNat ∧
      (nlmsgAlign (nlmsgLen hdr 0)).toNat = Align.up 4 (nlmsgLen hdr 0).toNat ∧
      (nlmsgAlign (nlmsgLen hdr 0) + nlmsgAlign (4 + attrlen)).toNat =
        Align.up 4 (nlmsgLen hdr 0).toNat + Align.up 4 (4 + attrlen.toNat) := by
  have hup := Align.up_le 4 (nlmsgLen hdr 0).toNat
  have hpad := Align.up_le 4 (4 + attrlen.toNat)
  have hsum : (4 + attrlen).toNat = 4 + attrlen.toNat := by
    rw [UInt32.toNat_add]
    exact Nat.mod_eq_of_lt (by change 4 + attrlen.toNat < 2 ^ 32; omega)
  have hend : (nlmsgAlign (nlmsgLen hdr 0)).toNat = Align.up 4 (nlmsgLen hdr 0).toNat :=
    nlmsgAlign_toNat (by omega)
  refine ⟨hsum, hend, ?_⟩
  rw [UInt32.toNat_add, hend, nlmsgAlign_toNat (by omega), hsum]
  omega

theorem memcpy_len_others (hdr : Buf) (x y : UInt32) {i : Nat} (h : 4 ≤ i) :
    memcpy (memcpy hdr 0 (le32 x)) 0 (le32 y) i = hdr i := by
  rw [memcpy_of_ge (by simpa using h), memcpy_of_ge (by simpa using h)]

/-- **A call fails and changes nothing, or appends its attribute.** -/
theorem netlinkAddattrL_spec {hdr : Buf} {maxlen : UInt32} (hmax : maxlen.toNat ≤ 65535)
    (hpos : 0 < (nlmsgLen hdr 0).toNat) (hlen : (nlmsgLen hdr 0).toNat ≤ maxlen.toNat)
    (type : UInt16) {attrdata : List UInt8} {attrlen : UInt32}
    (hdata : attrlen.toNat ≤ attrdata.length) (hattr : attrlen.toNat < 2 ^ 31) :
    netlinkAddattrL hdr maxlen type attrdata attrlen = (-1, hdr) ∨
      ∃ hdr', netlinkAddattrL hdr maxlen type attrdata attrlen = (0, hdr') ∧
        Appended maxlen hdr hdr' ⟨type, attrdata.take attrlen.toNat⟩ := by
  obtain ⟨hsum, hend, hmsglen⟩ := addattr_lengths hmax hlen hattr
  simp only [netlinkAddattrL]
  split_ifs with hfit
  · exact .inl rfl
  · refine .inr ⟨_, rfl, ?_⟩
    have hle := UInt32.not_lt.mp hfit
    rw [UInt32.le_iff_toNat_le, hmsglen] at hle
    have hup := Align.le_up (a := 4) (by decide) (nlmsgLen hdr 0).toNat
    have hrta : 4 ≤ Align.up 4 (nlmsgLen hdr 0).toNat := by
      obtain ⟨k, hk⟩ := Align.dvd_up 4 (nlmsgLen hdr 0).toNat
      omega
    have htake : (attrdata.take attrlen.toNat).length = attrlen.toNat :=
      List.length_take_of_le hdata
    have hlen16 : (4 + attrlen).toUInt16.toNat = 4 + (attrdata.take attrlen.toNat).length := by
      have hlow := Align.le_up (a := 4) (by decide) (4 + attrlen.toNat)
      rw [UInt32.toNat_toUInt16, hsum, htake]
      omega
    have hput := putAttr_attrAt hdr (Align.up 4 (nlmsgLen hdr 0).toNat) type hlen16
    have hothers {i : Nat} := putAttr_others hdr (p := Align.up 4 (nlmsgLen hdr 0).toNat) (i := i)
      type (4 + attrlen).toUInt16 (attrdata.take attrlen.toNat)
    have hread : nlmsgLen (putAttr hdr (Align.up 4 (nlmsgLen hdr 0).toNat) type
        (4 + attrlen).toUInt16 (attrdata.take attrlen.toNat)) 0 = nlmsgLen hdr 0 :=
      read32_congr (slice_congr fun k hk => hothers (.inl (by omega)))
    rw [hend, ← putAttr, hread, nlmsgLen_put]
    constructor
    · rw [RtAttr.len, htake]
      exact hle
    · rw [nlmsgLen_put, hmsglen, RtAttr.len, htake]
    · exact hput.congr fun i hi _ => memcpy_len_others _ _ _ (hrta.trans hi)
    · intro i hi hout
      rw [memcpy_len_others _ _ _ hi]
      exact hothers (hout.imp_right fun hge => (Nat.add_assoc _ 4 _).trans_le hge)

/-! ## Sequences of calls -/

/-- The calls one after the other: the attributes of those that succeed, and the message. -/
def addAttrs (maxlen : UInt32) : List AttrCall → Buf → List RtAttr × Buf
  | [], hdr => ([], hdr)
  | call :: calls, hdr =>
    let (result, hdr) := call.run maxlen hdr
    let (attrs, hdr) := addAttrs maxlen calls hdr
    (if result = 0 then call.attr :: attrs else attrs, hdr)

/-- The message behind a call. -/
def addAttrStep (maxlen : UInt32) (hdr : Buf) (call : AttrCall) : Option Buf :=
  some (call.run maxlen hdr).2

/-- A call that returns -1 changes nothing, and none changes a byte from `maxlen` on. -/
def AddAttrKeeps (maxlen : UInt32) (hdr : Buf) (call : AttrCall) : Prop :=
  ((call.run maxlen hdr).1 = -1 → (call.run maxlen hdr).2 = hdr) ∧
    ∀ i ≥ maxlen.toNat, (call.run maxlen hdr).2 i = hdr i

/-- The message has a length, and it is not beyond `maxlen`. -/
structure Bounded (maxlen : UInt32) (hdr : Buf) : Prop where
  pos : 0 < (nlmsgLen hdr 0).toNat
  le : (nlmsgLen hdr 0).toNat ≤ maxlen.toNat

section

variable {maxlen : UInt32} {hdr hdr' : Buf} {a : RtAttr} {call : AttrCall} {calls : List AttrCall}

theorem AttrCall.run_spec (hmax : maxlen.toNat ≤ 65535) (h : Bounded maxlen hdr)
    (hattr : call.attrlen.toNat < 2 ^ 31) : call.run maxlen hdr = (-1, hdr) ∨
      ∃ hdr', call.run maxlen hdr = (0, hdr') ∧ Appended maxlen hdr hdr' call.attr := by
  cases call with
  | l type attrdata attrlen hdata => exact netlinkAddattrL_spec hmax h.pos h.le type hdata hattr
  | u32 type value => exact netlinkAddattrL_spec hmax h.pos h.le type le_rfl hattr

theorem Appended.bounded (h : Appended maxlen hdr hdr' a) : Bounded maxlen hdr' := by
  have hfits := h.fits
  have hlen := h.len
  have hup := Align.le_up (a := 4) (by decide) a.len
  have hpos : 4 ≤ a.len := Nat.le_add_right 4 _
  exact ⟨by omega, by omega⟩

theorem Appended.keeps (h : Appended maxlen hdr hdr' a) {i : Nat} (hi : maxlen.toNat ≤ i) :
    hdr' i = hdr i := by
  have hfits := h.fits
  have hup := Align.le_up (a := 4) (by decide) a.len
  have hpos : 4 ≤ a.len := Nat.le_add_right 4 _
  exact h.others i (by omega) (.inr (by omega))

theorem AttrCall.run_keeps (hmax : maxlen.toNat ≤ 65535) (h : Bounded maxlen hdr)
    (hattr : call.attrlen.toNat < 2 ^ 31) :
    AddAttrKeeps maxlen hdr call ∧ Bounded maxlen (call.run maxlen hdr).2 := by
  rcases call.run_spec hmax h hattr with hrun | ⟨hdr', hrun, happ⟩
  · rw [AddAttrKeeps, hrun]
    exact ⟨⟨fun _ => rfl, fun _ _ => rfl⟩, h⟩
  · rw [AddAttrKeeps, hrun]
    exact ⟨⟨fun hno => absurd hno (by simp), fun i hi => happ.keeps hi⟩, happ.bounded⟩

/-- **What the message holds**: the attributes lie between `start` and its end, which is aligned
when there are any. -/
structure Holding (start : Nat) (attrs : List RtAttr) (hdr : Buf) : Prop where
  behind_len : 4 ≤ start
  attrsAt : AttrsAt hdr start attrs (Align.up 4 (nlmsgLen hdr 0).toNat)
  aligned : attrs = [] ∨ 4 ∣ (nlmsgLen hdr 0).toNat

theorem Holding.append {start : Nat} {attrs : List RtAttr} (h : Holding start attrs hdr)
    (happ : Appended maxlen hdr hdr' a) : Holding start (attrs ++ [a]) hdr' := by
  have hdvd : 4 ∣ (nlmsgLen hdr' 0).toNat := by
    rw [happ.len]
    exact Nat.dvd_add (Align.dvd_up 4 _) (Align.dvd_up 4 _)
  refine ⟨h.behind_len, ?_, .inr hdvd⟩
  rw [Align.up_of_dvd (by decide) hdvd, happ.len]
  have hstay : AttrsAt hdr' start attrs (Align.up 4 (nlmsgLen hdr 0).toNat) :=
    h.attrsAt.congr fun i hi hlt => happ.others i (h.behind_len.trans hi) (.inl hlt)
  exact hstay.append happ.attr

theorem Holding.rtaAttrs {start : Nat} {attrs : List RtAttr} (h : Holding start attrs hdr) :
    rtaAttrs hdr start ((nlmsgLen hdr 0).toNat - start) = attrs := by
  rcases h.aligned with rfl | hdvd
  · have hend : start = Align.up 4 (nlmsgLen hdr 0).toNat := h.attrsAt
    have hup := Align.le_up (a := 4) (by decide) (nlmsgLen hdr 0).toNat
    rw [Rhex.rtaAttrs, if_neg (by omega)]
  · have hwalk := h.attrsAt.rtaAttrs
    rwa [Align.up_of_dvd (by decide) hdvd] at hwalk

/-- A run of calls. -/
theorem Holding.addAttrs {start : Nat} {attrs : List RtAttr} (h : Holding start attrs hdr)
    (hmax : maxlen.toNat ≤ 65535) (hbound : Bounded maxlen hdr)
    (hattr : ∀ call ∈ calls, call.attrlen.toNat < 2 ^ 31) :
    Holding start (attrs ++ (addAttrs maxlen calls hdr).1) (addAttrs maxlen calls hdr).2 := by
  induction calls generalizing hdr attrs with
  | nil =>
    rw [Rhex.addAttrs, List.append_nil]
    exact h
  | cons call calls ih =>
    have hrest : ∀ x ∈ calls, x.attrlen.toNat < 2 ^ 31 :=
      fun x hx => hattr x (List.mem_cons_of_mem call hx)
    rcases call.run_spec hmax hbound (hattr call List.mem_cons_self) with
      hrun | ⟨hdr', hrun, happ⟩
    · simp only [Rhex.addAttrs, hrun]
      exact ih h hbound hrest
    · simp only [Rhex.addAttrs, hrun, if_true]
      rw [List.append_cons]
      exact ih (h.append happ) happ.bounded hrest

end

/-- **The attributes of the calls that succeed are what a receiver finds, in order; a call that
fails changes nothing, and none writes at or behind `maxlen`.** -/
theorem addattr_roundTrip (hdr : Buf) (maxlen : UInt32) (hmax : maxlen.toNat ≤ 65535)
    (hpos : 0 < (nlmsgLen hdr 0).toNat) (hlen : (nlmsgLen hdr 0).toNat ≤ maxlen.toNat)
    (calls : List AttrCall) (hattr : ∀ call ∈ calls, call.attrlen.toNat < 2 ^ 31) :
    Run.Throughout (addAttrStep maxlen) (AddAttrKeeps maxlen) hdr calls ∧
      rtaAttrs (addAttrs maxlen calls hdr).2 (nlmsgAlign (nlmsgLen hdr 0)).toNat
          ((nlmsgLen (addAttrs maxlen calls hdr).2 0).toNat -
            (nlmsgAlign (nlmsgLen hdr 0)).toNat) =
        (addAttrs maxlen calls hdr).1 := by
  have hbound : Bounded maxlen hdr := ⟨hpos, hlen⟩
  constructor
  · refine Run.Throughout.of_invariant (I := Bounded maxlen) ?_ ?_ hbound
    · rintro s call hcall _ hs ⟨⟩
      exact (call.run_keeps hmax hs (hattr call hcall)).2
    · intro s call hcall hs
      exact (call.run_keeps hmax hs (hattr call hcall)).1
  · have hend : (nlmsgAlign (nlmsgLen hdr 0)).toNat = Align.up 4 (nlmsgLen hdr 0).toNat :=
      nlmsgAlign_toNat (by omega)
    have hstart : 4 ≤ Align.up 4 (nlmsgLen hdr 0).toNat := by
      have hup := Align.le_up (a := 4) (by decide) (nlmsgLen hdr 0).toNat
      obtain ⟨k, hk⟩ := Align.dvd_up 4 (nlmsgLen hdr 0).toNat
      omega
    have hhold : Holding (Align.up 4 (nlmsgLen hdr 0).toNat) [] hdr := ⟨hstart, rfl, .inl rfl⟩
    rw [hend]
    exact (hhold.addAttrs hmax hbound hattr).rtaAttrs

/-- Two attributes behind a header, and a third that does not fit. -/
theorem addattr_roundTrip_three :
    rtaAttrs (addAttrs 36 [.l 4 [0x77, 0x6c, 0] 3 (by decide), .u32 3 7, .u32 5 6]
        (ofList (le32 16))).2 16
      ((nlmsgLen (addAttrs 36 [.l 4 [0x77, 0x6c, 0] 3 (by decide), .u32 3 7, .u32 5 6]
        (ofList (le32 16))).2 0).toNat - 16) = [⟨4, [0x77, 0x6c, 0]⟩, ⟨3, [7, 0, 0, 0]⟩] :=
  (addattr_roundTrip (ofList (le32 16)) 36 (by decide) (by decide) (by decide)
    [.l 4 [0x77, 0x6c, 0] 3 (by decide), .u32 3 7, .u32 5 6] (by decide)).2

/-- A message of length zero: the first attribute lies over the length, which makes it longer. -/
theorem addattr_no_header : (addAttrs 64 [.u32 1 7] (ofList [])).1 = [⟨1, [7, 0, 0, 0]⟩] ∧
    rtaAttrs (addAttrs 64 [.u32 1 7] (ofList [])).2 (nlmsgAlign (nlmsgLen (ofList []) 0)).toNat
        ((nlmsgLen (addAttrs 64 [.u32 1 7] (ofList [])).2 0).toNat -
          (nlmsgAlign (nlmsgLen (ofList []) 0)).toNat) =
      [⟨1, [7, 0, 0, 0, 0, 0, 0, 0, 0, 0, 0, 0]⟩] := by
  refine ⟨rfl, ?_⟩
  rw [rtaAttrs, if_pos (by decide), rtaAttrs, if_neg (by decide)]
  rfl

end Rhex
