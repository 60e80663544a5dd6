import Mathlib
import Rhex.StreamInterface

/-!
# Frames that end a receiver (`wfb_rx.c`, `wfb_rx_rawsock.c`)

The capture filter looks at five bytes behind the radiotap header, but the header of a standard
data frame has 24. Both receivers compare the length of a frame with that of its headers, and leave
the program if it is too short.

* `WellFormed` — a radiotap header as a driver supplies it; both parsers accept it.
* `Filtered` — a frame that passed the filter.
* `filtered_returns` — the frames that the receivers come back from.
-/

namespace Rhex

open Memory Traced

/-! ## Radiotap headers -/

/-- One of the present bitmaps from `arg` on is the last, and ends within `n` bytes. -/
def BitmapsEnd (rt : Buf) (n arg : Nat) : Prop :=
  ∃ k, arg + 4 * k + 4 ≤ n ∧ hasExt (read32 rt (arg + 4 * k)) = false

theorem BitmapsEnd.next {rt : Buf} {n arg : Nat} (h : BitmapsEnd rt n arg)
    (hext : hasExt (read32 rt arg) = true) : arg + 4 + 4 ≤ n ∧ BitmapsEnd rt n (arg + 4) := by
  obtain ⟨k, hle, hlast⟩ := h
  cases k with
  | zero => exact absurd (hlast.symm.trans hext) (by decide)
  | succ k =>
    have hoff : arg + 4 * (k + 1) = arg + 4 + 4 * k := by omega
    rw [hoff] at hle hlast
    exact ⟨by omega, k, hle, hlast⟩

theorem BitmapsEnd.skipBitmaps {rt : Buf} {n arg : Nat} (h : BitmapsEnd rt n arg) :
    (skipBitmaps rt n arg).isSome = true := by
  fun_induction Rhex.skipBitmaps rt n arg with
  | case1 arg hext hover =>
    have := (h.next hext).1
    omega
  | case2 arg hext hover ih => exact ih (h.next hext).2
  | case3 arg hext => rfl

theorem BitmapsEnd.skipExtended {rt : Buf} {n arg : Nat} (h : BitmapsEnd rt n arg) :
    (skipExtended rt n arg).result.isSome = true := by
  fun_induction Rhex.skipExtended rt n arg with
  | case1 arg ih =>
    rw [result_bind, result_load32, Option.bind_some]
    by_cases hext : hasExt (read32 rt arg) = true
    · obtain ⟨hle, hnext⟩ := h.next hext
      rw [if_pos hext, if_neg (by omega)]
      exact ih (by omega) hnext
    · rw [if_neg hext]
      rfl

/-- A radiotap header as the format has it: version 0, and present bitmaps that end within the
length that the header states. -/
structure WellFormed (rt : Buf) : Prop where
  version : rt 0 = 0
  bitmaps : BitmapsEnd rt (read16 rt 2).toNat 4

namespace WellFormed

variable {rt : Buf}

theorem ge (h : WellFormed rt) : 8 ≤ (read16 rt 2).toNat := by
  obtain ⟨k, hle, -⟩ := h.bitmaps
  omega

theorem initRc (h : WellFormed rt) {maxLength : Nat} (hle : (read16 rt 2).toNat ≤ maxLength)
    (nsData : Nat) : (radiotapIteratorInitRc rt maxLength nsData).isSome = true := by
  have hge := h.ge
  simp only [radiotapIteratorInitRc]
  rw [if_neg (by omega), if_neg (not_not.mpr h.version), if_neg (by omega)]
  by_cases hext : hasExt (read32 rt 4) = true
  · obtain ⟨hfits, hnext⟩ := h.bitmaps.next hext
    rw [if_pos hext, if_neg (by omega), Option.isSome_map]
    exact hnext.skipBitmaps
  · rw [if_neg hext]
    rfl

/-- The parser of `radiotap.c` accepts it. -/
theorem init (h : WellFormed rt) {maxLength : Int} (hle : (read16 rt 2).toNat ≤ maxLength) :
    (radiotapIteratorInit rt maxLength).result.isSome = true := by
  have hstart : (payloadStart rt (read16 rt 2).toNat (read32 rt 4)).result.isSome = true := by
    unfold payloadStart
    by_cases hext : hasExt (read32 rt 4) = true
    · rw [if_pos hext]
      exact (h.bitmaps.next hext).2.skipExtended
    · rw [if_neg hext]
      rfl
  obtain ⟨arg, harg⟩ := Option.isSome_iff_exists.mp hstart
  unfold radiotapIteratorInit
  simp only [result_bind, result_load8, result_load16, result_load32, Option.bind_some,
    if_neg (not_not.mpr h.version), if_neg (not_lt.mpr hle), harg]
  rfl

theorem congr {b c : Buf} (hb : WellFormed b) (h : ∀ i < (read16 b 2).toNat, b i = c i) :
    WellFormed c := by
  have hge := hb.ge
  have hlen : read16 c 2 = read16 b 2 :=
    read16_congr (slice_congr fun k hk => (h _ (by omega)).symm)
  refine ⟨(h 0 (by omega)).symm.trans hb.version, ?_⟩
  obtain ⟨k, hle, hlast⟩ := hb.bitmaps
  refine ⟨k, hlen ▸ hle, ?_⟩
  rw [← hlast]
  exact congrArg hasExt (read32_congr (slice_congr fun j hj => (h _ (by omega)).symm))

end WellFormed

/-- What the parser of `radiotap_rc.c` accepts as a whole is well formed. -/
theorem ValidRadiotap.wellFormed {rt : List UInt8} (h : ValidRadiotap rt) :
    WellFormed (ofList rt) := by
  have hge := h.ge
  have haccepted := h.accepted
  have hlength := h.length
  simp only [radiotapIteratorInitRc] at haccepted
  split_ifs at haccepted with hshort hversion hlen hext hover
  · exact absurd haccepted (by decide)
  · exact absurd haccepted (by decide)
  · exact absurd haccepted (by decide)
  · exact absurd haccepted (by decide)
  · rw [Option.isSome_map] at haccepted
    obtain ⟨last, hlast⟩ := Option.isSome_iff_exists.mp haccepted
    obtain ⟨j, hj, hle, hclear⟩ := skipBitmaps_spec (by omega) hlast
    have hoff : 4 + 4 * (j + 1) = last := by omega
    exact ⟨not_not.mp hversion, j + 1, by omega, hoff ▸ hclear⟩
  · exact ⟨not_not.mp hversion, 0, by omega, by simpa using hext⟩

/-! ## Frames that passed the filter -/

/-- A frame that pcap hands over: it passed the filter, no more of it is captured than there is,
and the driver's header is well formed. -/
structure Filtered (port : Nat) (c : Capture) : Prop where
  filter : captureFilter port c = true
  captured : c.caplen.toNat ≤ c.len.toNat
  radiotap : WellFormed c.data

/-- A standard data frame that ends within its own header. -/
def Capture.Short (c : Capture) : Prop :=
  c.typeByte = 0x02 ∧ c.len.toNat < c.headerLen + 0x18

instance (c : Capture) : Decidable c.Short := inferInstanceAs (Decidable (_ ∧ _))

namespace Filtered

variable {port : Nat} {c : Capture}

theorem kind (h : Filtered port c) :
    (c.typeByte = 0x01 ∨ c.typeByte = 0x02) ∧ c.headerLen + 5 ≤ c.len.toNat := by
  have hfilter := h.filter
  simp only [captureFilter, Bool.and_eq_true, Bool.or_eq_true, decide_eq_true_eq,
    beq_iff_eq] at hfilter
  obtain ⟨⟨hlen, hbytes⟩, -⟩ := hfilter
  refine ⟨?_, hlen.trans h.captured⟩
  rcases hbytes with (⟨-, hshort⟩ | ⟨-, hdata⟩) | ⟨⟨⟨-, hrts⟩, -⟩, -⟩
  · exact Or.inl hshort
  · exact Or.inr hdata
  · exact Or.inl hrts

theorem fits_iff (h : Filtered port c) {n : Nat} (hone : c.typeByte = 0x01 → n = 0x05)
    (htwo : c.typeByte = 0x02 → n = 0x18) : c.headerLen + n ≤ c.len.toNat ↔ ¬c.Short := by
  obtain ⟨hkind, hlen⟩ := h.kind
  rcases hkind with htype | htype
  · rw [hone htype]
    exact iff_of_true hlen fun hshort => absurd (htype.symm.trans hshort.1) (by decide)
  · rw [htwo htype]
    exact ⟨fun hle hshort => absurd hshort.2 (by omega), fun hnot => by
      by_contra hlt
      exact hnot ⟨htype, by omega⟩⟩

end Filtered

/-! ## The two receivers -/

theorem frameKind_fst (interface : MonitorInterface) (type type' : Nat) (b : UInt8) :
    (frameKind interface type b).1 = (frameKind interface type' b).1 := by
  unfold frameKind
  split_ifs <;> rfl

/-- `wfb_rx_packet_interface` comes back from exactly the accepted frames. -/
theorem receiveFrame_isSome (nsData : Nat) (interface : MonitorInterface) (rxData : RxPacket)
    (c : Capture) :
    (receiveFrame nsData interface rxData c).isSome = true ↔ Accepted interface c := by
  simp only [receiveFrame, Accepted, bodyOffset, frameKind_fst interface rxData.type 0]
  by_cases hlen : c.len.toNat < c.headerLen + (frameKind interface 0 c.typeByte).1
  · rw [if_pos hlen]
    exact iff_of_false (by decide) fun h => absurd h.1 (Nat.not_le.mpr hlen)
  · rw [if_neg hlen, radiotapIteratorInitRc_isSome _ _ 0 nsData]
    cases hit : radiotapIteratorInitRc c.data c.len.toNat nsData with
    | none => exact iff_of_false Bool.false_ne_true fun h => absurd h.2 Bool.false_ne_true
    | some it =>
      obtain ⟨dbm, hdbm⟩ := signalLoop_returns _ (radiotapIteratorInitRc_spec hit) le_rfl (-127)
      simp only [Option.bind_eq_bind, Option.bind_some, hdbm]
      exact iff_of_true rfl ⟨Nat.not_lt.mp hlen, rfl⟩

theorem receiveVideo_isSome (clk : Nat → UInt64) (count : Nat) {s : StreamRx} (hs : RxInv s.rx)
    (i : Nat) (rxData : RxData) (c : Capture) :
    (receiveVideo clk count s i rxData c).result.isSome = true ↔ StreamAccepted (s.iface i) c := by
  by_cases h : StreamAccepted (s.iface i) c
  · obtain ⟨r, hrun, -⟩ := receiveVideo_spec clk count hs h rxData
    exact iff_of_true (Option.isSome_of_eq_some hrun) h
  · rw [receiveVideo_rejects clk count h]
    exact iff_of_false (by decide) h

theorem toInt32_of_lt {x : UInt32} (h : x.toNat < 2 ^ 31) : toInt32 x = x.toNat := by
  unfold toInt32
  rw [Int.bmod_def]
  split_ifs <;> omega

theorem toInt32_of_ge {x : UInt32} (h : 2 ^ 31 ≤ x.toNat) : toInt32 x < 0 := by
  have hlt := x.toNat_lt
  unfold toInt32
  rw [Int.bmod_def]
  split_ifs <;> omega

namespace Filtered

variable {port : Nat} {c : Capture}

theorem accepted_iff (h : Filtered port c) (interface : MonitorInterface) :
    Accepted interface c ↔ ¬c.Short := by
  have hfits : bodyOffset interface c ≤ c.len.toNat ↔ ¬c.Short :=
    h.fits_iff (fun htype => by rw [htype]; rfl) (fun htype => by rw [htype]; rfl)
  rw [Accepted, hfits]
  have hheader : c.headerLen ≤ c.len.toNat := by
    have := h.kind.2
    omega
  exact and_iff_left (h.radiotap.initRc hheader 0)

/-- The parser of `radiotap.c` takes the length of the frame as an `int`. -/
theorem streamAccepted_iff (h : Filtered port c) (interface : MonitorInterface) :
    StreamAccepted interface c ↔ ¬c.Short ∧ c.len.toNat < 2 ^ 31 := by
  have hfits : streamOffset interface c ≤ c.len.toNat ↔ ¬c.Short :=
    h.fits_iff (fun htype => by rw [htype]; rfl) (fun htype => by rw [htype]; rfl)
  rw [StreamAccepted, hfits]
  have hheader : c.headerLen ≤ c.len.toNat := by
    have := h.kind.2
    omega
  refine and_congr_right fun _ => ⟨fun haccepted => ?_, fun hlt => ?_⟩
  · by_contra hge
    obtain ⟨-, hnot⟩ := radiotapIteratorInit_accepts haccepted
    have := toInt32_of_ge (Nat.not_lt.mp hge)
    omega
  · refine h.radiotap.init ?_
    rw [toInt32_of_lt hlt]
    exact_mod_cast hheader

end Filtered

theorem wfbRxStream_isSome (clk : Nat → UInt64) {count : Nat} {s : StreamRx} (hs : RxInv s.rx)
    (rxData : RxData) {cycle : Cycle count} (hresult : 0 < cycle.result) {c : Capture}
    (hnext : cycle.next = .frame c) : (wfbRxStream clk s rxData cycle).result.isSome = true ↔
      StreamAccepted (s.iface cycle.adapter) c := by
  have hinv : RxInv (watchAdapters clk count s).rx := hs.of_same (watchAdapters_same clk count s)
  rw [← watchAdapters_iface clk count s,
    ← receiveVideo_isSome clk count hinv cycle.adapter rxData c]
  simp only [wfbRxStream, if_pos hresult, cycle.find_adapter hresult, hnext, wfbRxStreamInterface,
    result_bind]
  cases (receiveVideo clk count (watchAdapters clk count s) cycle.adapter rxData c).result <;> rfl

/-- **The frames that the receivers come back from**, of those that pass the filter: all but the
standard data frames that end within their own header. The video receiver also leaves if the length
is not an `int`; of the others, it comes back from those that it can read and copy. -/
theorem filtered_returns {port : Nat} {c : Capture} (h : Filtered port c) :
    (∀ nsData interface rxData,
      (wfbRxPacketInterface nsData interface rxData (.frame c)).isSome = true ↔ ¬c.Short) ∧
    ∀ (clk : Nat → UInt64) (malloc : Nat → Buf) {count : Nat} (calls : List (StreamCall count)),
      Run.Throughout (streamStep clk) (fun s e => 0 < e.cycle.result → e.cycle.next = .frame c →
        (c.Short ∨ 2 ^ 31 ≤ c.len.toNat → (wfbRxStream clk s e.rxData e.cycle).result = none) ∧
        (¬c.Short → c.len.toNat < 2 ^ 31 → FrameFits s.rx (s.iface e.cycle.adapter) c →
          (wfbRxStream clk s e.rxData e.cycle).result.isSome = true ∧
            InBounds (wfbRxStream clk s e.rxData e.cycle) (.frame c))) (.init malloc) calls := by
  constructor
  · intro nsData interface rxData
    rw [← h.accepted_iff interface]
    exact receiveFrame_isSome nsData interface rxData c
  · intro clk malloc count calls
    refine Run.Throughout.of_invariant (I := fun s => RxInv s.rx)
      (fun _ _ _ _ => streamStep_inv clk) (fun s e _ hs hresult hnext => ⟨fun hexit => ?_, ?_⟩)
      (wfbRxStreamInit_fresh malloc).inv
    · rw [← Option.not_isSome_iff_eq_none, wfbRxStream_isSome clk hs e.rxData hresult hnext,
        h.streamAccepted_iff]
      rintro ⟨hlong, hint⟩
      exact hexit.elim hlong fun hge => absurd hint (Nat.not_lt.mpr hge)
    · intro hlong hint hfits
      refine ⟨(wfbRxStream_isSome clk hs e.rxData hresult hnext).mpr
        ((h.streamAccepted_iff _).mpr ⟨hlong, hint⟩), ?_⟩
      rw [← hnext, (wfbRxStream_bounds clk hs e.rxData e.cycle).2]
      intro _ c' hc' _
      obtain rfl := NextEx.frame.inj (hnext.symm.trans hc')
      exact hfits

/-- An RTS frame of port 0 with packet 7 of the first block, of two bytes. -/
theorem filtered_returns_rts :
    let c : Capture := ⟨19, 19, ofList ([0, 0, 8, 0, 0, 0, 0, 0, 0xb4, 0x01, 0x00, 0x00, 0x01] ++
      [7, 0, 0, 0, 5, 6])⟩
    let cycle : Cycle 1 := ⟨1, fun _ => true, .frame c, 0, fun _ => ⟨0, by decide, rfl⟩⟩
    let call := wfbRxStream (fun _ => 0) (.init fun _ _ => 0) ⟨0, fun _ => 0⟩ cycle
    (wfbRxPacketInterface 0 ⟨0⟩ .zero (.frame c)).isSome = true ∧ call.result.isSome = true ∧
      InBounds call (.frame c) := by
  intro c cycle call
  have hfiltered : Filtered 0 c := ⟨by decide, by decide, by decide, 0, by decide, by decide⟩
  have hfits : FrameFits (wfbRxStreamInit fun _ _ => 0) ⟨0⟩ c :=
    ⟨by decide, fun h => absurd h (by decide), by decide, fun _ => by decide⟩
  obtain ⟨hpacket, hstream⟩ := filtered_returns hfiltered
  have hcall := (hstream (fun _ => 0) (fun _ _ => 0) [⟨⟨0, fun _ => 0⟩, cycle⟩]).1
  exact ⟨(hpacket 0 ⟨0⟩ .zero).mpr (by decide),
    (hcall (by decide) rfl).2 (by decide) (by decide) hfits⟩

/-- A standard data frame of port 0, cut behind the byte of the port, passes the filter and ends
both receivers. An RTS frame without a body passes it, too, and the video receiver reads what is
behind it. -/
theorem filtered_exits :
    let c : Capture := ⟨13, 13, ofList [0, 0, 8, 0, 0, 0, 0, 0, 0x08, 0x02, 0x00, 0x00, 0x01]⟩
    let rts : Capture := ⟨13, 13, ofList [0, 0, 8, 0, 0, 0, 0, 0, 0xb4, 0x01, 0x00, 0x00, 0x01]⟩
    let cycle (c : Capture) : Cycle 1 :=
      ⟨1, fun _ => true, .frame c, 0, fun _ => ⟨0, by decide, rfl⟩⟩
    let call (c : Capture) :=
      wfbRxStream (fun _ => 0) (.init fun _ _ => 0) ⟨0, fun _ => 0⟩ (cycle c)
    Filtered 0 c ∧ wfbRxPacketInterface 0 ⟨0⟩ .zero (.frame c) = none ∧ (call c).result = none ∧
      Filtered 0 rts ∧ ¬InBounds (call rts) (.frame rts) := by
  intro c rts cycle call
  have hinv := (wfbRxStreamInit_fresh fun _ _ => 0).inv
  refine ⟨⟨by decide, by decide, by decide, 0, by decide, by decide⟩, rfl, ?_,
    ⟨by decide, by decide, by decide, 0, by decide, by decide⟩, ?_⟩
  · rw [← Option.not_isSome_iff_eq_none, wfbRxStream_isSome (fun _ => 0) hinv _ (by decide) rfl]
    exact fun haccepted => absurd haccepted.1 (by decide)
  · intro hbounds
    have hfits := (wfbRxStream_bounds (fun _ => 0) hinv _ (cycle rts)).2.mp hbounds
    obtain ⟨-, -, hnumber, -⟩ := hfits (by decide) rts rfl ⟨by decide, by decide⟩
    exact absurd hnumber (by decide)

end Rhex
