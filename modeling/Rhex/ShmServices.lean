import Mathlib
import Rhex.Lib.Run
import Rhex.SharedMem

/-!
# The services and their shared memory

Which service declares, opens and writes which segment, with the C types whose sizes it passes.

* `Service.inits`, `Service.opens`, `Service.writes` — the calls of each service.
* `shmSystemStep` — one call, of any service.
* `writers_respect` — which writes stay in their slot.
-/

namespace Rhex

open Memory

/-! ## Types -/

/-- A C type: its size and its alignment. -/
structure CType where
  size : Nat
  align : Nat
deriving DecidableEq

namespace CType

/-- A scalar of `n` bytes. -/
def scalar (n : Nat) : CType := ⟨n, n⟩

def array (t : CType) (n : Nat) : CType := ⟨t.size * n, t.align⟩

/-- A structure: each field at the next offset of its alignment, the whole padded to its own. -/
def struct (fields : List CType) : CType :=
  let align := fields.foldl (fun a t => max a t.align) 1
  ⟨Align.up align (fields.foldl (fun off t => Align.up t.align off + t.size) 0), align⟩

def u8 : CType := scalar 1
def u16 : CType := scalar 2
def u32 : CType := scalar 4
def u64 : CType := scalar 8

/-- `wifi_adapter_rx_status_t`. -/
def wifiAdapterRxStatus : CType := struct [u32, u32, u8, u8, u32]

/-- `wifibroadcast_rx_status_t`. -/
def wifibroadcastRxStatus : CType :=
  struct [u64, u32, u32, u32, u32, u32, u32, u32, u32, u32, array wifiAdapterRxStatus 4]

/-- `wifibroadcast_tx_status_t`. -/
def wifibroadcastTxStatus : CType := struct [u64, u32, u32, u32, u64]

/-- `wifibroadcast_rx_status_t_rc`. -/
def wifibroadcastRxStatusRc : CType :=
  struct [u64, u32, u32, u32, u32, u32, u32, u32, u32, array wifiAdapterRxStatus 4]

/-- `wifibroadcast_rx_status_t_sysair`. -/
def wifibroadcastRxStatusSysair : CType :=
  struct [u64, u8, u8, u32, u32, u32, u64, u16, u16, u8, u8]

/-- `gps_status_t`; a `float` has four bytes. -/
def gpsStatus : CType := struct [u32, u32, u32, u32, u32, u32, u8, u8, u8]

/-- `sensors_status_t`; a `double` has eight bytes. -/
def sensorsStatus : CType := struct [u64, u64, u64, u64, u64, u64]

/-- `rc_data_t`. -/
def rcData : CType := struct [u32, u32, array u8 32]

/-- `rc_status_t`. -/
def rcStatus : CType := struct [u64, u32, u32, u8]

end CType

/-! ## Services -/

/-- The segments, under their names without `shm_`. -/
inductive ShmName where
  | gps | sensors | rc | rcStatus
  | rxStatus | txStatus | rxStatusSysair | rxStatusRc
deriving DecidableEq

/-- The services of `start_microservices`, on the robot and on the ground. -/
inductive Service where
  | gps | sensors | motion | telemetry | rc | rssi | camera
  | rssiRx | telemetryRx | rssiQgc | video | rcTx | control
deriving DecidableEq

namespace Service

/-- The calls of `shm_map_init`, with the type whose size is declared. -/
def inits : Service → List (ShmName × CType)
  | telemetry => [(.gps, .gpsStatus), (.sensors, .sensorsStatus)]
  | rc => [(.rc, .rcData), (.rcStatus, .rcStatus)]
  | rssiRx => [(.txStatus, .wifibroadcastTxStatus),
      (.rxStatusSysair, .wifibroadcastRxStatusSysair)]
  | telemetryRx => [(.rxStatusRc, .wifibroadcastRxStatusRc)]
  | video => [(.rxStatus, .wifibroadcastRxStatus)]
  | rcTx => [(.txStatus, .wifibroadcastTxStatus)]
  | _ => []

/-- The calls of `shm_map_open`. -/
def opens : Service → List ShmName
  | gps => [.gps]
  | sensors => [.sensors]
  | motion => [.rc]
  | telemetry => [.gps, .sensors]
  | rc => [.rc, .rcStatus]
  | rssi => [.rxStatus, .rxStatusRc, .txStatus]
  | rssiRx => [.txStatus, .rxStatusSysair]
  | telemetryRx => [.rxStatusRc]
  | rssiQgc => [.rxStatus, .txStatus, .rxStatusRc, .rxStatusSysair]
  | video => [.rxStatus]
  | _ => []

/-- The calls of `shm_map_write`, with the type of what is written. -/
def writes : Service → List (ShmName × CType)
  | gps => [(.gps, .gpsStatus)]
  | sensors => [(.sensors, .sensorsStatus)]
  | rc => [(.rc, .rcData), (.rcStatus, .wifibroadcastRxStatusRc)]
  | rssiRx => [(.txStatus, .wifibroadcastRxStatus),
      (.rxStatusSysair, .wifibroadcastRxStatusSysair)]
  | telemetryRx => [(.rxStatusRc, .wifibroadcastRxStatusRc)]
  | video => [(.rxStatus, .wifibroadcastRxStatus)]
  | _ => []

end Service

/-- The type that a segment is declared with. -/
def ShmName.declared : ShmName → CType
  | gps => .gpsStatus
  | sensors => .sensorsStatus
  | rc => .rcData
  | rcStatus => .rcStatus
  | rxStatus => .wifibroadcastRxStatus
  | txStatus => .wifibroadcastTxStatus
  | rxStatusSysair => .wifibroadcastRxStatusSysair
  | rxStatusRc => .wifibroadcastRxStatusRc

/-- Two services declare `shm_tx_status`, both with the same type. -/
theorem inits_declared (s : Service) : ∀ p ∈ s.inits, p.2 = p.1.declared := by
  cases s <;> decide

/-- The writes of a type that is not the declared one. -/
def Service.Oversized (s : Service) (name : ShmName) : Prop :=
  (s, name) = (.rc, .rcStatus) ∨ (s, name) = (.rssiRx, .txStatus)

instance (s : Service) (name : ShmName) : Decidable (s.Oversized name) :=
  inferInstanceAs (Decidable (_ ∨ _))

/-- **The sizes written** are those declared, but for two segments. -/
theorem writes_declared (s : Service) : ∀ p ∈ s.writes,
    if s.Oversized p.1 then p.1.declared.size + 8 ≤ p.2.size else p.2 = p.1.declared := by
  cases s <;> decide

/-- The service writes `data` to the segment. -/
def Service.Writes (s : Service) (name : ShmName) (data : List UInt8) : Prop :=
  ∃ p ∈ s.writes, p.1 = name ∧ data.length = p.2.size

instance (s : Service) (name : ShmName) (data : List UInt8) : Decidable (s.Writes name data) :=
  inferInstanceAs (Decidable (∃ p ∈ s.writes, _))

theorem Service.Writes.length {s : Service} {name : ShmName} {data : List UInt8}
    (h : s.Writes name data) :
    if s.Oversized name then name.declared.size + 8 ≤ data.length
    else data.length = name.declared.size := by
  obtain ⟨p, hp, rfl, hlen⟩ := h
  have := writes_declared s p hp
  split_ifs at this ⊢ with hover
  · exact hlen ▸ this
  · rw [hlen, this]

theorem declared_size (name : ShmName) : 0 < name.declared.size ∧ name.declared.size ≤ 112 := by
  cases name <;> decide

/-! ## Runs -/

/-- The width of a pointer. -/
inductive PtrWidth where
  | four | eight
deriving DecidableEq

/-- `sizeof(uint64_t *)`. -/
def PtrWidth.bytes : PtrWidth → Nat
  | four => 4
  | eight => 8

/-- The shared memory objects of a machine, and the `shm_t` variables of its services. -/
structure ShmSystem where
  segments : ShmName → Option Segment
  handles : Service → ShmName → Shm

def ShmSystem.start : ShmSystem := ⟨fun _ => none, fun _ _ => .zero⟩

/-- A call that a service makes. -/
inductive ShmCall where
  | init (s : Service) (name : ShmName)
  | «open» (s : Service) (name : ShmName)
  | write (s : Service) (name : ShmName) (data : List UInt8)

/-- The bytes of an object, zero if it is new. -/
def ShmSystem.bytes (sys : ShmSystem) (name : ShmName) : Buf :=
  match sys.segments name with
  | some seg => seg.bytes
  | none => fun _ => 0

/-- One call. There is no step for a call that the service does not make. -/
def shmSystemStep (w : PtrWidth) (sys : ShmSystem) : ShmCall → Option ShmSystem
  | .init s name => do
    let t ← s.inits.lookup name
    some { sys with
      segments := Function.update sys.segments name
        (some (shmMapInit w.bytes t.size (sys.bytes name))) }
  | .open s name =>
    if name ∈ s.opens then
      match (sys.segments name).bind (shmMapOpen w.bytes) with
      | none => some sys
      | some shm => some { sys with
          handles := Function.update sys.handles s (Function.update (sys.handles s) name shm) }
    else none
  | .write s name data =>
    if s.Writes name data then
      some { sys with
        segments := Function.update sys.segments name ((sys.segments name).map fun seg =>
          (shmMapWrite w.bytes (sys.handles s name) data seg).2) }
    else none

/-- What a write is to do: it stays in the mapping, writes only bytes of its slot, and leaves the
other slots as they were. -/
structure Respects (w : PtrWidth) (shm : Shm) (seg : Segment) (data : List UInt8) : Prop where
  mapped : seg.slotAddr w.bytes (seg.nextIndex.toNat % shmCopies) + data.length ≤ shm.mapLen
  inSlot : data.length ≤ alignSize w.bytes seg.header.size.toNat
  others : ∀ slot < shmCopies, slot ≠ seg.nextIndex.toNat % shmCopies →
    slice (shmMapWrite w.bytes shm data seg).2.bytes (seg.slotAddr w.bytes slot)
        (alignSize w.bytes seg.header.size.toNat) =
      slice seg.bytes (seg.slotAddr w.bytes slot) (alignSize w.bytes seg.header.size.toNat)

/-- A write to a segment that is open respects it; other calls write nothing. -/
def CallRespects (w : PtrWidth) (sys : ShmSystem) : ShmCall → Prop
  | .write s name data => s.Writes name data → ∀ seg, sys.segments name = some seg →
      (sys.handles s name).guard = shmGuard → Respects w (sys.handles s name) seg data
  | _ => True

/-- The write to an open segment is not one of the two of a larger type, and with pointers of four
bytes it is to slot 0 or 1. -/
def CallSized (w : PtrWidth) (sys : ShmSystem) : ShmCall → Prop
  | .write s name data => s.Writes name data → ∀ seg, sys.segments name = some seg →
      (sys.handles s name).guard = shmGuard → ¬s.Oversized name ∧
        (w = .eight ∨ seg.nextIndex.toNat % shmCopies < 2)
  | _ => True

/-! ## Where the segments are -/

/-- A segment as `shm_map_init` laid it out for `size` bytes. -/
structure Segment.Laid (w : PtrWidth) (size : Nat) (seg : Segment) : Prop where
  magic : seg.header.magic = shmMagic
  size_eq : seg.header.size.toNat = size
  offset : ∀ slot < shmCopies,
    (seg.header.slot slot).offset = sizeT w.bytes (alignSize w.bytes size * slot)

/-- **What holds between two calls**: every segment is laid out for its declared type, and an open
handle is to a segment that exists and has mapped all of it. -/
structure ShmSystem.Laid (w : PtrWidth) (sys : ShmSystem) : Prop where
  segment : ∀ name seg, sys.segments name = some seg → seg.Laid w name.declared.size
  mapLen : ∀ s name, (sys.handles s name).guard = shmGuard →
    (sys.handles s name).mapLen = calcShmSize w.bytes name.declared.size shmCopies

theorem alignSize_bytes (w : PtrWidth) {size : Nat} (h : size ≤ 2 ^ 24) :
    alignSize w.bytes size = Align.up w.bytes size := by
  cases w with
  | four => exact alignSize_four (by omega)
  | eight => exact alignSize_eight (by omega)

theorem up_bytes_le (w : PtrWidth) (size : Nat) : Align.up w.bytes size ≤ size + 7 := by
  have := Align.up_le w.bytes size
  cases w <;> simp only [PtrWidth.bytes] at * <;> omega

theorem calcShmSize_bytes (w : PtrWidth) {size : Nat} (h : size ≤ 2 ^ 24) :
    calcShmSize w.bytes size shmCopies =
      Align.up w.bytes size * shmCopies + sizeofShmHeader := by
  have := up_bytes_le w size
  rw [calcShmSize, alignSize_bytes w h]
  cases w <;> simp only [PtrWidth.bytes, sizeT, shmCopies, sizeofShmHeader] at * <;> omega

/-- Offsets count pointers where addresses count `uint64_t`: with pointers of four bytes the slots
lie twice as far apart as they are long. -/
theorem slotAddr_bytes (w : PtrWidth) {size : Nat} (h : size ≤ 2 ^ 24) {seg : Segment} {slot : Nat}
    (hslot : slot < shmCopies)
    (hoffset : (seg.header.slot slot).offset = sizeT w.bytes (alignSize w.bytes size * slot)) :
    seg.slotAddr w.bytes slot =
      sizeofShmHeader + 8 / w.bytes * (Align.up w.bytes size * slot) := by
  have hup := up_bytes_le w size
  obtain ⟨k, hk⟩ := Align.dvd_up w.bytes size
  have hfit : Align.up w.bytes size * slot < 2 ^ (8 * w.bytes) := by
    have hmul := Nat.mul_le_mul hup (Nat.lt_succ_iff.mp hslot)
    cases w <;> simp only [PtrWidth.bytes] at hmul ⊢ <;> omega
  rw [Segment.slotAddr, hoffset, alignSize_bytes w h, sizeT, Nat.mod_eq_of_lt hfit, hk,
    Nat.mul_assoc]
  cases w <;> simp only [PtrWidth.bytes] <;> omega

theorem declared_le (name : ShmName) : name.declared.size ≤ 2 ^ 24 :=
  (declared_size name).2.trans (by decide)

theorem Segment.Laid.slotAddr {w : PtrWidth} {name : ShmName} {seg : Segment}
    (h : seg.Laid w name.declared.size) {slot : Nat} (hslot : slot < shmCopies) :
    seg.slotAddr w.bytes slot =
      sizeofShmHeader + 8 / w.bytes * (Align.up w.bytes name.declared.size * slot) :=
  slotAddr_bytes w (declared_le name) hslot (h.offset slot hslot)

theorem slots_apart (k up : Nat) {a b : Nat} (hk : 1 ≤ k) (hab : a < b) :
    k * (up * a) + up ≤ k * (up * b) :=
  calc k * (up * a) + up ≤ k * (up * a) + k * up :=
        Nat.add_le_add_left (Nat.le_mul_of_pos_left up hk) _
    _ = k * (up * (a + 1)) := by rw [Nat.mul_succ, Nat.mul_add]
    _ ≤ k * (up * b) := Nat.mul_le_mul_left k (Nat.mul_le_mul_left up hab)

namespace ShmSystem.Laid

variable {w : PtrWidth} {sys sys' : ShmSystem}

theorem start (w : PtrWidth) : ShmSystem.start.Laid w :=
  ⟨fun _ _ h => by simp [ShmSystem.start] at h,
    fun _ _ h => absurd h (by simp [ShmSystem.start, Shm.zero, shmGuard])⟩

theorem setSegment (h : sys.Laid w) (name : ShmName) {o : Option Segment}
    (ho : ∀ seg, o = some seg → seg.Laid w name.declared.size) :
    Laid w { sys with segments := Function.update sys.segments name o } := by
  refine ⟨fun name' seg hseg => ?_, h.mapLen⟩
  by_cases hname : name' = name
  · subst hname
    simp only [Function.update_self] at hseg
    exact ho seg hseg
  · simp only [Function.update_of_ne hname] at hseg
    exact h.segment name' seg hseg

theorem setHandle (h : sys.Laid w) (s : Service) (name : ShmName) {shm : Shm}
    (hshm : shm.mapLen = calcShmSize w.bytes name.declared.size shmCopies) :
    Laid w { sys with
      handles := Function.update sys.handles s (Function.update (sys.handles s) name shm) } := by
  refine ⟨h.segment, fun s' name' hguard => ?_⟩
  by_cases hs : s' = s
  · subst hs
    simp only [Function.update_self] at hguard ⊢
    by_cases hname : name' = name
    · subst hname
      rw [Function.update_self, hshm]
    · rw [Function.update_of_ne hname] at hguard ⊢
      exact h.mapLen s' name' hguard
  · simp only [Function.update_of_ne hs] at hguard ⊢
    exact h.mapLen s' name' hguard

theorem shmMapInit_laid (name : ShmName) (bytes : Buf) :
    (shmMapInit w.bytes name.declared.size bytes).Laid w name.declared.size := by
  refine ⟨rfl, ?_, fun _ _ => rfl⟩
  have := (declared_size name).2
  simp only [shmMapInit, UInt32.toNat_ofNat']
  omega

theorem shmMapOpen_laid {seg : Segment} {size : Nat} (h : seg.Laid w size) :
    shmMapOpen w.bytes seg = some ⟨shmGuard, calcShmSize w.bytes size shmCopies, size⟩ := by
  rw [shmMapOpen, if_neg (not_not.mpr h.magic), h.size_eq]

theorem shmMapWrite_laid {shm : Shm} {data : List UInt8} {seg : Segment} {size : Nat}
    (h : seg.Laid w size) : (shmMapWrite w.bytes shm data seg).2.Laid w size := by
  rw [shmMapWrite]
  split_ifs
  · exact h
  · exact ⟨h.magic, h.size_eq, h.offset⟩

/-- **One call keeps the layout.** -/
theorem step (h : sys.Laid w) {call : ShmCall} (hstep : shmSystemStep w sys call = some sys') :
    sys'.Laid w := by
  cases call with
  | init s name =>
    obtain ⟨t, ht, hsys⟩ := Option.bind_eq_some_iff.mp hstep
    obtain ⟨before, after, hinits, -⟩ := List.lookup_eq_some_iff.mp ht
    obtain rfl : t = name.declared := inits_declared s (name, t) (by simp [hinits])
    obtain rfl := Option.some.inj hsys
    refine h.setSegment name fun seg hseg => ?_
    obtain rfl := Option.some.inj hseg
    exact shmMapInit_laid name _
  | «open» s name =>
    simp only [shmSystemStep] at hstep
    split_ifs at hstep
    cases hseg : sys.segments name with
    | none =>
      simp only [hseg, Option.bind_none, Option.some.injEq] at hstep
      exact hstep ▸ h
    | some seg =>
      simp only [hseg, Option.bind_some, shmMapOpen_laid (h.segment name seg hseg),
        Option.some.injEq] at hstep
      subst hstep
      exact h.setHandle s name rfl
  | write s name data =>
    simp only [shmSystemStep] at hstep
    split_ifs at hstep
    obtain rfl := Option.some.inj hstep
    refine h.setSegment name fun seg hseg => ?_
    obtain ⟨seg₀, hseg₀, rfl⟩ := Option.map_eq_some_iff.mp hseg
    exact shmMapWrite_laid (h.segment name seg₀ hseg₀)

/-- A write of no more than the declared size, to a slot that lies in the mapping. -/
theorem respects (h : sys.Laid w) {s : Service} {name : ShmName} {seg : Segment}
    (hseg : sys.segments name = some seg) (hopen : (sys.handles s name).guard = shmGuard)
    {data : List UInt8} (hlen : data.length ≤ name.declared.size)
    (hslot : w = .eight ∨ seg.nextIndex.toNat % shmCopies < 2) :
    Respects w (sys.handles s name) seg data := by
  have hlaid := h.segment name seg hseg
  have hup := Align.le_up (a := w.bytes) (by cases w <;> decide) name.declared.size
  have hnext : seg.nextIndex.toNat % shmCopies < shmCopies := Nat.mod_lt _ (by decide)
  have halign := alignSize_bytes w (declared_le name)
  refine ⟨?_, ?_, fun slot hlt hne => ?_⟩
  · rw [hlaid.slotAddr hnext, h.mapLen s name hopen, calcShmSize_bytes w (declared_le name)]
    cases w with
    | four =>
      have := slots_apart 2 (Align.up 4 name.declared.size) (by decide)
        (hslot.resolve_left (by decide))
      simp only [PtrWidth.bytes, shmCopies, sizeofShmHeader] at *
      omega
    | eight =>
      have := slots_apart 1 (Align.up 8 name.declared.size) (by decide) hnext
      simp only [PtrWidth.bytes, shmCopies, sizeofShmHeader] at *
      omega
  · rw [hlaid.size_eq, halign]
    exact hlen.trans hup
  · rw [shmMapWrite, if_neg (not_not.mpr hopen), hlaid.size_eq, halign]
    simp only [Segment.publish_bytes, Segment.copy]
    rw [hlaid.slotAddr hlt, hlaid.slotAddr hnext]
    have hpos : 1 ≤ 8 / w.bytes := by cases w <;> decide
    rcases Nat.lt_or_gt_of_ne hne with hbefore | hafter
    · have := slots_apart (8 / w.bytes) (Align.up w.bytes name.declared.size) hpos hbefore
      exact slice_memcpy_before (by omega)
    · have := slots_apart (8 / w.bytes) (Align.up w.bytes name.declared.size) hpos hafter
      exact slice_memcpy_after (by omega)

/-- A write respects its segment if and only if it is sized. -/
theorem callRespects_iff (h : sys.Laid w) (call : ShmCall) :
    CallRespects w sys call ↔ CallSized w sys call := by
  cases call with
  | init => exact Iff.rfl
  | «open» => exact Iff.rfl
  | write s name data =>
    refine forall_congr' fun hwrites => forall₃_congr fun seg hseg hopen => ?_
    constructor
    · intro hres
      have hlaid := h.segment name seg hseg
      have hlen := hwrites.length
      have hinSlot := hres.inSlot
      have hmapped := hres.mapped
      have hup := Align.up_le w.bytes name.declared.size
      have hpos := (declared_size name).1
      have hnext : seg.nextIndex.toNat % shmCopies < shmCopies := Nat.mod_lt _ (by decide)
      rw [hlaid.size_eq, alignSize_bytes w (declared_le name)] at hinSlot
      rw [hlaid.slotAddr hnext, h.mapLen s name hopen,
        calcShmSize_bytes w (declared_le name)] at hmapped
      have hnot : ¬s.Oversized name := by
        intro hover
        rw [if_pos hover] at hlen
        cases w <;> simp only [PtrWidth.bytes] at * <;> omega
      refine ⟨hnot, ?_⟩
      rw [if_neg hnot] at hlen
      cases w with
      | eight => exact .inl rfl
      | four =>
        refine .inr (Nat.lt_of_not_le fun hslot => ?_)
        have hup₂ := Nat.mul_le_mul_left (Align.up 4 name.declared.size) hslot
        simp only [PtrWidth.bytes, shmCopies, sizeofShmHeader] at *
        omega
    · rintro ⟨hover, hslot⟩
      have hlen := hwrites.length
      rw [if_neg hover] at hlen
      exact h.respects hseg hopen hlen.le hslot

end ShmSystem.Laid

/-- **Writers and their segments.** In a run of the services, in any order, every write respects
its segment exactly if every write is sized. -/
theorem writers_respect (w : PtrWidth) (calls : List ShmCall) :
    Run.Throughout (shmSystemStep w) (CallRespects w) .start calls ↔
      Run.Throughout (shmSystemStep w) (CallSized w) .start calls :=
  Run.Throughout.congr (fun _ _ _ _ h hstep => h.step hstep)
    (fun _ call _ h => h.callRespects_iff call) (ShmSystem.Laid.start w)

/-- `rc_main` writes 104 bytes to a segment of 24. -/
theorem rc_status_overrun : ¬Run.Throughout (shmSystemStep .eight) (CallRespects .eight) .start
    [.init .rc .rcStatus, .open .rc .rcStatus, .write .rc .rcStatus (List.replicate 104 1)] := by
  intro h
  have hwrite := ((h.2 _ rfl).2 _ rfl).1 (by decide) _ rfl rfl
  exact absurd hwrite.inSlot (by decide +kernel)

end Rhex
