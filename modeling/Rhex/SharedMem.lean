import Mathlib
import Rhex.Lib.Align
import Rhex.Lib.Memory

/-!
# Shared memory (`libsvc/sharedmem.c`)

A segment is a header and four slots. Its one writer copies each payload into the next slot and
then publishes the slot's index; readers take the address of the published slot and go on reading
there.

* `shmMapInit`, `shmMapOpen`, `shmMapRead`, `shmMapWrite` — the functions of the file.
* `shmRun` — a writer that is interrupted between the copy and the publication.
* `ShmRun.Holds` — the last four payloads are in their slots.
* `snapshot_stable` — how long a payload stays in place after it was read.
-/

namespace Rhex

open Memory

/-! ## Layout -/

/-- `SHM_COPIES`. -/
@[simp] abbrev shmCopies : Nat := 4

/-- `SHM_MAGIC`. -/
def shmMagic : UInt64 := 0x53484D5F44415441

/-- `SHM_GUARD`. -/
def shmGuard : UInt64 := 0x53484D4755415244

/-- `SHM_START_IDX`. -/
def shmStartIdx : UInt32 := 0xFFFFFFFE

/-- `sizeof(shm_header_t)`. -/
@[simp] abbrev sizeofShmHeader : Nat := 88

/-- A `size_t` where pointers have `ptr` bytes. -/
def sizeT (ptr n : Nat) : Nat := n % 2 ^ (8 * ptr)

/-- `align_size`, where `sizeof(uint64_t *)` is `ptr`. -/
def alignSize (ptr size : Nat) : Nat :=
  sizeT ptr (size + (ptr - 1)) &&& (2 ^ (8 * ptr) - ptr)

/-- `calc_shm_size`. -/
def calcShmSize (ptr copySize copies : Nat) : Nat :=
  sizeT ptr (sizeT ptr (alignSize ptr copySize * copies) + sizeofShmHeader)

/-- `shm_slot_t`. -/
structure ShmSlot where
  index : UInt32
  size : UInt32
  offset : Nat

/-- `shm_header_t`. -/
structure ShmHeader where
  magic : UInt64
  size : UInt32
  copies : UInt32
  index : UInt32
  slot : Nat → ShmSlot

/-- A shared memory object: its header, and the bytes behind it by their offset from its start. -/
structure Segment where
  header : ShmHeader
  bytes : Buf

/-- `shm_t`; of the pointer `map` only how many bytes are mapped there. -/
structure Shm where
  guard : UInt64
  mapLen : Nat
  size : Nat
  deriving DecidableEq

/-- A `shm_t` that was never opened. -/
def Shm.zero : Shm := ⟨0, 0, 0⟩

/-! ## The functions -/

/-- `shm_map_init`, after the object was mapped: `bytes` is what it holds. -/
def shmMapInit (ptr size : Nat) (bytes : Buf) : Segment where
  header :=
    { magic := shmMagic
      size := .ofNat size
      copies := .ofNat shmCopies
      index := shmStartIdx
      slot := fun slot => ⟨shmStartIdx, 0, sizeT ptr (alignSize ptr size * slot)⟩ }
  bytes

/-- `shm_map_open` of an object that exists. -/
def shmMapOpen (ptr : Nat) (seg : Segment) : Option Shm :=
  if seg.header.magic ≠ shmMagic then none
  else some
    { guard := shmGuard
      mapLen := calcShmSize ptr seg.header.size.toNat shmCopies
      size := seg.header.size.toNat }

/-- `&p.u64[offset / sizeof(uint64_t *)]` of a slot, as an offset from the start. -/
def Segment.slotAddr (ptr : Nat) (seg : Segment) (slot : Nat) : Nat :=
  sizeofShmHeader + 8 * ((seg.header.slot slot).offset / ptr)

/-- `shm_map_read`: its result, and what it writes to `*data`. -/
def shmMapRead (ptr : Nat) (shm : Shm) (seg : Segment) : Int × Option Nat :=
  if shm.guard ≠ shmGuard then (-1, none)
  else (0, some (seg.slotAddr ptr (seg.header.index.toNat % shmCopies)))

/-- The index of the next slot, in `shm_map_write`. -/
def Segment.nextIndex (seg : Segment) : UInt32 := seg.header.index + 1

/-- The `memcpy` of `shm_map_write`. -/
def Segment.copy (ptr : Nat) (seg : Segment) (data : List UInt8) : Segment :=
  { seg with bytes := memcpy seg.bytes (seg.slotAddr ptr (seg.nextIndex.toNat % shmCopies)) data }

/-- The assignment of `hdr->index` in `shm_map_write`. -/
def Segment.publish (seg : Segment) (index : UInt32) : Segment :=
  { seg with header := { seg.header with index } }

/-- `shm_map_write`. -/
def shmMapWrite (ptr : Nat) (shm : Shm) (data : List UInt8) (seg : Segment) : Int × Segment :=
  if shm.guard ≠ shmGuard then (-1, seg)
  else (0, (seg.copy ptr data).publish seg.nextIndex)

@[simp] theorem Segment.copy_header (ptr : Nat) (seg : Segment) (data : List UInt8) :
    (seg.copy ptr data).header = seg.header := rfl

@[simp] theorem Segment.publish_bytes (seg : Segment) (index : UInt32) :
    (seg.publish index).bytes = seg.bytes := rfl

@[simp] theorem Segment.publish_index (seg : Segment) (index : UInt32) :
    (seg.publish index).header.index = index := rfl

@[simp] theorem Segment.publish_slotAddr (ptr : Nat) (seg : Segment) (index : UInt32)
    (slot : Nat) : (seg.publish index).slotAddr ptr slot = seg.slotAddr ptr slot := rfl

@[simp] theorem Segment.copy_slotAddr (ptr : Nat) (seg : Segment) (data : List UInt8)
    (slot : Nat) : (seg.copy ptr data).slotAddr ptr slot = seg.slotAddr ptr slot := rfl

/-! ## Where the slots are -/

theorem alignSize_eq {k size : Nat} (hk : k ≤ 8 * 2 ^ k)
    (h : size + (2 ^ k - 1) < 2 ^ (8 * 2 ^ k)) :
    alignSize (2 ^ k) size = Align.up (2 ^ k) size := by
  rw [alignSize, sizeT, Nat.mod_eq_of_lt h, Align.and_mask hk h, Align.up]

theorem alignSize_eight {size : Nat} (h : size + 7 < 2 ^ 64) :
    alignSize 8 size = Align.up 8 size :=
  alignSize_eq (k := 3) (by decide) h

theorem alignSize_four {size : Nat} (h : size + 3 < 2 ^ 32) :
    alignSize 4 size = Align.up 4 size :=
  alignSize_eq (k := 2) (by decide) h

/-- With pointers of 8 bytes the slots lie one behind the other. -/
theorem slotAddr_eight {size : Nat}
    (hsize : Align.up 8 size * shmCopies + sizeofShmHeader < 2 ^ 64) {seg : Segment} {slot : Nat}
    (hslot : slot < shmCopies)
    (hoffset : (seg.header.slot slot).offset = sizeT 8 (alignSize 8 size * slot)) :
    seg.slotAddr 8 slot = sizeofShmHeader + Align.up 8 size * slot := by
  simp only [shmCopies, sizeofShmHeader] at hsize hslot
  have hle := Align.le_up (a := 8) (by decide) size
  have halign : alignSize 8 size = Align.up 8 size := alignSize_eight (by omega)
  obtain ⟨k, hk⟩ : 8 ∣ Align.up 8 size := Align.dvd_up 8 size
  have hfit : Align.up 8 size * slot < 2 ^ 64 := by
    have := Nat.mul_le_mul_left (Align.up 8 size) hslot.le
    omega
  rw [Segment.slotAddr, hoffset, halign, sizeT, Nat.mod_eq_of_lt hfit, hk, Nat.mul_assoc,
    Nat.mul_div_cancel_left _ (by decide)]

/-! ## A writer and its readers -/

/-- A writer between two steps of `shm_map_write`: the segment, the call that has copied its
payload and not yet published it, and the payloads of all calls started and of all calls
completed, the newest first. -/
structure ShmRun where
  seg : Segment
  writing : Option (UInt32 × List UInt8)
  started : List (List UInt8)
  published : List (List UInt8)

/-- The steps of a writer. A reader changes nothing, so it may read between any two of them. -/
inductive ShmEvent where
  | copy (data : List UInt8)
  | publish

def shmStep (ptr : Nat) (r : ShmRun) : ShmEvent → Option ShmRun
  | .copy data =>
    match r.writing with
    | some _ => none
    | none => some
      { r with
        seg := r.seg.copy ptr data
        writing := some (r.seg.nextIndex, data)
        started := data :: r.started }
  | .publish =>
    match r.writing with
    | none => none
    | some (index, data) => some
      { r with
        seg := r.seg.publish index
        writing := none
        published := data :: r.published }

def shmRun (ptr : Nat) (r : ShmRun) (events : List ShmEvent) : Option ShmRun :=
  events.foldlM (shmStep ptr) r

/-- A writer before its first call. -/
def ShmRun.start (ptr size : Nat) (bytes : Buf) : ShmRun :=
  ⟨shmMapInit ptr size bytes, none, [], []⟩

/-- A call of `shm_map_write` is the two steps. -/
theorem shmRun_write (ptr : Nat) {shm : Shm} (hshm : shm.guard = shmGuard) {r : ShmRun}
    (hidle : r.writing = none) (data : List UInt8) :
    ∃ r', shmRun ptr r [.copy data, .publish] = some r' ∧
      shmMapWrite ptr shm data r.seg = (0, r'.seg) ∧ r'.writing = none := by
  refine ⟨_, by simp only [shmRun, List.foldlM_cons, shmStep, hidle]; rfl, ?_, rfl⟩
  rw [shmMapWrite, if_neg (not_not.mpr hshm)]

/-- The writer changes nothing in the header but the index. -/
theorem shmRun_header {ptr : Nat} {events : List ShmEvent} {r r' : ShmRun}
    (hrun : shmRun ptr r events = some r') :
    r'.seg.header = { r.seg.header with index := r'.seg.header.index } := by
  induction events generalizing r with
  | nil =>
    obtain rfl := Option.some.inj hrun
    rfl
  | cons e events ih =>
    rw [shmRun, List.foldlM_cons] at hrun
    obtain ⟨r₁, hstep, hrest⟩ := Option.bind_eq_some_iff.mp hrun
    rw [ih hrest]
    cases e with
    | copy data =>
      simp only [shmStep] at hstep
      split at hstep
      · cases hstep
      · cases hstep
        rfl
    | publish =>
      simp only [shmStep] at hstep
      split at hstep
      · cases hstep
      · cases hstep
        rfl

/-- The calls that are begun by a list of steps. -/
def startedCalls (events : List ShmEvent) : Nat :=
  events.countP fun
    | .copy _ => true
    | .publish => false

/-- The calls that are in progress. -/
def ShmRun.inProgress (r : ShmRun) : Nat := if r.writing.isSome then 1 else 0

/-- The index of the newest call started. -/
def ShmRun.lastIndex (r : ShmRun) : UInt32 :=
  match r.writing with
  | some (index, _) => index
  | none => r.seg.header.index

/-- **What holds between two steps**: the slots are where `shm_map_init` put them, a call in
progress is about to publish the next index, and each of the last four payloads is in the slot of
its index. -/
structure ShmRun.Holds (size : Nat) (r : ShmRun) : Prop where
  layout : ∀ slot < shmCopies, r.seg.slotAddr 8 slot = sizeofShmHeader + Align.up 8 size * slot
  writing : ∀ index data, r.writing = some (index, data) →
    index = r.seg.nextIndex ∧ r.started = data :: r.published
  idle : r.writing = none → r.started = r.published
  fits : ∀ data ∈ r.started, data.length ≤ size
  recent : ∀ age < shmCopies, ∀ data, r.started[age]? = some data →
    slice r.seg.bytes (r.seg.slotAddr 8 ((r.lastIndex - .ofNat age).toNat % shmCopies))
      data.length = data

namespace ShmRun

variable {size : Nat} {r r' : ShmRun}

theorem start_holds (hsize : Align.up 8 size * shmCopies + sizeofShmHeader < 2 ^ 64)
    (bytes : Buf) : (start 8 size bytes).Holds size := by
  refine ⟨fun slot hslot => slotAddr_eight hsize hslot rfl, ?_, fun _ => rfl, ?_, ?_⟩
  · intro index data h
    exact absurd h (by simp [start])
  · intro data h
    exact absurd h List.not_mem_nil
  · intro age _ data h
    exact absurd h (by simp [start])

theorem slot_ne {index age : UInt32} (hpos : 0 < age.toNat) (hlt : age.toNat < shmCopies) :
    (index - age).toNat % shmCopies ≠ index.toNat % shmCopies := by
  have h₁ := index.toNat_lt
  have h₂ := age.toNat_lt
  simp only [shmCopies, UInt32.toNat_sub] at hlt ⊢
  omega

/-- Writing to one slot leaves the payloads in the others. -/
theorem Holds.slice_copy (h : r.Holds size) {data : List UInt8} (hdata : data.length ≤ size)
    {slot n : Nat} (hslot : slot < shmCopies) (hn : n ≤ size)
    (hne : slot ≠ r.seg.nextIndex.toNat % shmCopies) :
    slice (r.seg.copy 8 data).bytes (r.seg.slotAddr 8 slot) n =
      slice r.seg.bytes (r.seg.slotAddr 8 slot) n := by
  have hnext : r.seg.nextIndex.toNat % shmCopies < shmCopies := Nat.mod_lt _ (by decide)
  have hle := Align.le_up (a := 8) (by decide) size
  rw [Segment.copy, h.layout slot hslot, h.layout _ hnext]
  rcases Nat.lt_or_gt_of_ne hne with hlt | hgt
  · have := Nat.mul_le_mul_left (Align.up 8 size) (Nat.succ_le_of_lt hlt)
    rw [Nat.mul_succ] at this
    exact slice_memcpy_before (by omega)
  · have := Nat.mul_le_mul_left (Align.up 8 size) (Nat.succ_le_of_lt hgt)
    rw [Nat.mul_succ] at this
    exact slice_memcpy_after (by omega)

/-- A call begins. -/
theorem Holds.copy (h : r.Holds size) (hidle : r.writing = none) {data : List UInt8}
    (hdata : data.length ≤ size) :
    Holds size { r with
      seg := r.seg.copy 8 data
      writing := some (r.seg.nextIndex, data)
      started := data :: r.started } := by
  have hlast : r.lastIndex + 1 = r.seg.nextIndex := by rw [lastIndex, hidle, Segment.nextIndex]
  refine ⟨h.layout, ?_, fun hno => absurd hno (by simp), ?_, ?_⟩
  · intro index d hwriting
    obtain ⟨rfl, rfl⟩ := Prod.mk.inj (Option.some.inj hwriting)
    exact ⟨rfl, congrArg (data :: ·) (h.idle hidle)⟩
  · intro d hd
    rcases List.mem_cons.mp hd with rfl | hd
    · exact hdata
    · exact h.fits d hd
  · intro age hage d hd
    change slice (r.seg.copy 8 data).bytes
      (r.seg.slotAddr 8 ((r.seg.nextIndex - UInt32.ofNat age).toNat % shmCopies)) d.length = d
    cases age with
    | zero =>
      obtain rfl : data = d := by simpa using hd
      rw [show r.seg.nextIndex - UInt32.ofNat 0 = r.seg.nextIndex from UInt32.sub_zero _]
      exact slice_memcpy _ _ _
    | succ age =>
      rw [List.getElem?_cons_succ] at hd
      simp only [shmCopies] at hage
      have hage' : (UInt32.ofNat (age + 1)).toNat = age + 1 := by
        rw [UInt32.toNat_ofNat']
        omega
      have hne : (r.seg.nextIndex - UInt32.ofNat (age + 1)).toNat % shmCopies ≠
          r.seg.nextIndex.toNat % shmCopies :=
        slot_ne (by omega) (by simp only [shmCopies]; omega)
      have hindex : r.seg.nextIndex - UInt32.ofNat (age + 1) = r.lastIndex - UInt32.ofNat age := by
        rw [← hlast, UInt32.ofNat_add]
        grind
      rw [hindex] at hne ⊢
      rw [h.slice_copy hdata (Nat.mod_lt _ (by decide)) (h.fits d (List.mem_of_getElem? hd)) hne]
      exact h.recent age (by simp only [shmCopies]; omega) d hd

theorem Holds.publish (h : r.Holds size) {index : UInt32} {data : List UInt8}
    (hwriting : r.writing = some (index, data)) :
    Holds size { r with
      seg := r.seg.publish index
      writing := none
      published := data :: r.published } := by
  obtain ⟨-, hstarted⟩ := h.writing index data hwriting
  refine ⟨h.layout, fun _ _ hno => absurd hno (by simp), fun _ => hstarted, h.fits, ?_⟩
  intro age hage d hd
  have := h.recent age hage d hd
  rw [lastIndex, hwriting] at this
  exact this

/-- **One step of the writer.** -/
theorem Holds.step (h : r.Holds size) {e : ShmEvent}
    (hdata : ∀ data, e = .copy data → data.length ≤ size) (hstep : shmStep 8 r e = some r') :
    r'.Holds size ∧ (∃ new : List (List UInt8),
      r'.started = new ++ r.started ∧ new.length = startedCalls [e]) ∧
      r'.lastIndex = r.lastIndex + .ofNat (startedCalls [e]) := by
  cases e with
  | copy data =>
    cases hw : r.writing with
    | some w => simp [shmStep, hw] at hstep
    | none =>
      simp only [shmStep, hw, Option.some.injEq] at hstep
      subst hstep
      refine ⟨h.copy hw (hdata data rfl), ⟨[data], rfl, rfl⟩, ?_⟩
      rw [lastIndex, lastIndex, hw]
      rfl
  | publish =>
    cases hw : r.writing with
    | none => simp [shmStep, hw] at hstep
    | some w =>
      obtain ⟨index, data⟩ := w
      simp only [shmStep, hw, Option.some.injEq] at hstep
      subst hstep
      refine ⟨h.publish hw, ⟨[], rfl, rfl⟩, ?_⟩
      rw [lastIndex, lastIndex, hw]
      exact (UInt32.add_zero _).symm

/-- **A run of the writer.** -/
theorem Holds.run (h : r.Holds size) {events : List ShmEvent}
    (hdata : ∀ data, .copy data ∈ events → data.length ≤ size)
    (hrun : shmRun 8 r events = some r') :
    r'.Holds size ∧ (∃ new : List (List UInt8),
      r'.started = new ++ r.started ∧ new.length = startedCalls events) ∧
      r'.lastIndex = r.lastIndex + .ofNat (startedCalls events) := by
  induction events generalizing r with
  | nil =>
    obtain rfl := Option.some.inj hrun
    exact ⟨h, ⟨[], rfl, rfl⟩, (UInt32.add_zero _).symm⟩
  | cons e events ih =>
    rw [shmRun, List.foldlM_cons] at hrun
    obtain ⟨r₁, hstep, hrest⟩ := Option.bind_eq_some_iff.mp hrun
    obtain ⟨h₁, ⟨new₁, hnew₁, hlen₁⟩, hlast₁⟩ :=
      h.step (fun data he => hdata data (he ▸ List.mem_cons_self)) hstep
    obtain ⟨h', ⟨new, hnew, hlen⟩, hlast⟩ :=
      ih h₁ (fun data he => hdata data (List.mem_cons_of_mem e he)) hrest
    have hcount : startedCalls (e :: events) = startedCalls [e] + startedCalls events := by
      rw [← List.singleton_append, startedCalls, List.countP_append]
      rfl
    refine ⟨h', ⟨new ++ new₁, ?_, ?_⟩, ?_⟩
    · rw [hnew, hnew₁, List.append_assoc]
    · rw [List.length_append, hlen, hlen₁, hcount, Nat.add_comm]
    · rw [hlast, hlast₁, hcount, UInt32.ofNat_add, UInt32.add_assoc]

/-- The payload published last is that of the newest call, or of the one before it while that is
in progress; and its index is the one in the header. -/
theorem Holds.published (h : r.Holds size) {data : List UInt8}
    (hpub : r.published.head? = some data) :
    r.started[r.inProgress]? = some data ∧
      r.lastIndex - .ofNat r.inProgress = r.seg.header.index := by
  cases hw : r.writing with
  | none =>
    rw [inProgress, lastIndex, hw, h.idle hw]
    exact ⟨List.head?_eq_getElem?.symm.trans hpub, UInt32.sub_zero _⟩
  | some w =>
    obtain ⟨index, d⟩ := w
    obtain ⟨hindex, hstarted⟩ := h.writing index d hw
    rw [inProgress, lastIndex, hw, hstarted]
    refine ⟨List.head?_eq_getElem?.symm.trans hpub, ?_⟩
    change index - 1 = _
    rw [hindex, Segment.nextIndex, UInt32.add_sub_cancel]

end ShmRun

/-! ## Snapshots -/

/-- What a reader maps, whenever it opens the segment. -/
theorem shmMapOpen_run {size : Nat} (hsize : size < 2 ^ 32) {bytes : Buf} {events : List ShmEvent}
    {r : ShmRun} (hrun : shmRun 8 (.start 8 size bytes) events = some r) {shm : Shm}
    (hshm : shmMapOpen 8 r.seg = some shm) :
    shm.guard = shmGuard ∧ shm.mapLen = Align.up 8 size * shmCopies + sizeofShmHeader := by
  have hup := Align.up_le 8 size
  have hheader : r.seg.header.size.toNat = size := by
    rw [shmRun_header hrun]
    exact (UInt32.toNat_ofNat' ..).trans (Nat.mod_eq_of_lt hsize)
  rw [shmMapOpen, hheader] at hshm
  split at hshm
  · cases hshm
  · obtain rfl := Option.some.inj hshm
    refine ⟨rfl, ?_⟩
    simp only [calcShmSize, sizeT, shmCopies, sizeofShmHeader] at *
    rw [alignSize_eight (by omega)]
    omega

/-- **Snapshots.** Once a payload is published, the address that `shm_map_read` returns is that of
the payload published last, within what the reader has mapped, and the payload stays there while at
most three more calls of `shm_map_write` are started, the one in progress at the time of the read
among them. The reader may have opened the segment between any two steps before. -/
theorem snapshot_stable {size : Nat} (hsize : size < 2 ^ 32) (bytes : Buf)
    {opened pre post : List ShmEvent}
    (hdata : ∀ data, .copy data ∈ opened ++ pre ++ post → data.length ≤ size)
    {r₀ r r' : ShmRun} (hopened : shmRun 8 (.start 8 size bytes) opened = some r₀)
    {shm : Shm} (hshm : shmMapOpen 8 r₀.seg = some shm) (hpre : shmRun 8 r₀ pre = some r)
    (hpost : shmRun 8 r post = some r') {data : List UInt8}
    (hpub : r.published.head? = some data) (hfew : r.inProgress + startedCalls post ≤ 3) :
    ∃ addr, shmMapRead 8 shm r.seg = (0, some addr) ∧ sizeofShmHeader ≤ addr ∧
      addr + data.length ≤ shm.mapLen ∧ slice r.seg.bytes addr data.length = data ∧
      slice r'.seg.bytes addr data.length = data := by
  have hup := Align.up_le 8 size
  have hle := Align.le_up (a := 8) (by decide) size
  have hfit : Align.up 8 size * shmCopies + sizeofShmHeader < 2 ^ 64 := by
    simp only [shmCopies, sizeofShmHeader]
    omega
  obtain ⟨hguard, hlen⟩ := shmMapOpen_run hsize hopened hshm
  obtain ⟨h₀, -, -⟩ := (ShmRun.start_holds hfit bytes).run
    (fun d hd => hdata d (List.mem_append_left _ (List.mem_append_left _ hd))) hopened
  obtain ⟨h, -, -⟩ := h₀.run
    (fun d hd => hdata d (List.mem_append_left _ (List.mem_append_right _ hd))) hpre
  obtain ⟨h', ⟨new, hnew, hnewlen⟩, hlast⟩ :=
    h.run (fun d hd => hdata d (List.mem_append_right _ hd)) hpost
  obtain ⟨hget, hindex⟩ := h.published hpub
  have hslot : r.seg.header.index.toNat % shmCopies < shmCopies := Nat.mod_lt _ (by decide)
  have haddr := h.layout _ hslot
  have hsmall := h.fits data (List.mem_of_getElem? hget)
  refine ⟨_, by rw [shmMapRead, if_neg (not_not.mpr hguard)], ?_, ?_, ?_, ?_⟩
  · rw [haddr]
    exact Nat.le_add_right _ _
  · have := Nat.mul_le_mul_left (Align.up 8 size) (Nat.succ_le_of_lt hslot)
    rw [Nat.mul_succ] at this
    omega
  · rw [← hindex]
    exact h.recent _ (by simp only [shmCopies]; omega) data hget
  · have hget' : r'.started[r.inProgress + startedCalls post]? = some data := by
      rw [hnew, List.getElem?_append_right (by omega), hnewlen, Nat.add_sub_cancel]
      exact hget
    have hindex' : r'.lastIndex - .ofNat (r.inProgress + startedCalls post) =
        r.seg.header.index := by
      rw [hlast, ← hindex, UInt32.ofNat_add]
      grind
    have := h'.recent _ (by simp only [shmCopies]; omega) data hget'
    rwa [hindex', h'.layout _ hslot, ← haddr] at this

/-- A payload, and three calls started after it. -/
theorem snapshot_stable_three : ∃ r r' addr,
    shmRun 8 (.start 8 8 fun _ => 0) [.copy [1], .publish] = some r ∧
    shmRun 8 r [.copy [2], .publish, .copy [3], .publish, .copy [4]] = some r' ∧
    shmMapRead 8 ⟨shmGuard, 120, 8⟩ r.seg = (0, some addr) ∧ 88 ≤ addr ∧ addr + 1 ≤ 120 ∧
    slice r.seg.bytes addr 1 = [1] ∧ slice r'.seg.bytes addr 1 = [1] := by
  have hdata : ∀ data : List UInt8, .copy data ∈ ([] ++ [.copy [1], .publish] ++
      [.copy [2], .publish, .copy [3], .publish, .copy [4]] : List ShmEvent) →
        data.length ≤ 8 := by
    simp
  obtain ⟨addr, h⟩ := @snapshot_stable 8 (by decide) (fun _ => 0) [] [.copy [1], .publish]
    [.copy [2], .publish, .copy [3], .publish, .copy [4]] hdata _ _ _ rfl ⟨shmGuard, 120, 8⟩ rfl
    rfl rfl [1] rfl (by decide)
  exact ⟨_, _, addr, rfl, rfl, h⟩

/-- The payload is read while the next call is in progress: of three calls started after that, the
last one overwrites it. And the size of a segment of 4 GiB is 0 in its header, so a reader maps 88
bytes, and the first payload lies far behind them. -/
theorem snapshot_torn :
    (∃ r r' addr,
      shmRun 8 (.start 8 8 fun _ => 0) [.copy [1], .publish, .copy [2]] = some r ∧
      shmRun 8 r [.publish, .copy [3], .publish, .copy [4], .publish, .copy [5]] = some r' ∧
      startedCalls [.publish, .copy [3], .publish, .copy [4], .publish, .copy [5]] = 3 ∧
      r.published.head? = some [1] ∧ shmMapRead 8 ⟨shmGuard, 120, 8⟩ r.seg = (0, some addr) ∧
      slice r.seg.bytes addr 1 = [1] ∧ slice r'.seg.bytes addr 1 = [5]) ∧
    ∃ r, shmRun 8 (.start 8 (2 ^ 32) fun _ => 0) [.copy [1], .publish] = some r ∧
      r.published.head? = some [1] ∧ shmMapOpen 8 r.seg = some ⟨shmGuard, 88, 0⟩ ∧
      shmMapRead 8 ⟨shmGuard, 88, 0⟩ r.seg = (0, some (88 + 3 * 2 ^ 32)) := by
  refine ⟨⟨_, _, _, rfl, rfl, rfl, rfl, rfl, ?_, ?_⟩, _, rfl, rfl, ?_, ?_⟩ <;> decide +kernel

end Rhex
