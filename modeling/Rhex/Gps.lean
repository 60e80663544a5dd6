import Mathlib
import Rhex.Lib.Memory
import Rhex.Lib.Run

/-!
# The GPS reader

`gps_main` waits up to a second for the serial port, reads what has arrived and collects it into
lines for `parse_line`.

* `gpsByte` — one byte of the port.
* `gpsCycle` — one round of the loop. It has no result when the loop is left, or when a byte
  is stored behind the end of `line`.
* `gpsMain_hears` — when the port is in the read set of each `select`.
-/

namespace Rhex

open Memory

/-! ## Lines -/

/-- `char line[256]` and `line_len`. -/
structure GpsLine where
  line : Buf
  lineLen : Nat

/-- The string that starts a buffer of `n` characters. -/
def lineString (b : Buf) (n : Nat) : List UInt8 := (slice b 0 n).takeWhile (· ≠ 0)

namespace GpsLine

/-- Write to `line[line_len]`. -/
def store (s : GpsLine) (x : UInt8) : Option Buf :=
  if s.lineLen < 256 then some (memcpy s.line s.lineLen [x]) else none

end GpsLine

/-- The body of the loop over `buffer`, with the strings given to `parse_line`. -/
def gpsByte (s : GpsLine) (x : UInt8) : Option (GpsLine × List (List UInt8)) :=
  if x = 0x0d ∨ x = 0x0a then
    if 0 < s.lineLen then do
      let line ← s.store 0
      return (⟨line, 0⟩, [lineString line 256])
    else
      some ({ s with lineLen := 0 }, [])
  else do
    let line ← s.store x
    return (⟨line, s.lineLen + 1⟩, [])

/-- The loop over the bytes of a read. -/
def gpsBytes (s : GpsLine) : List UInt8 → Option (GpsLine × List (List UInt8))
  | [] => some (s, [])
  | x :: xs => do
    let (s, lines) ← gpsByte s x
    let (s, rest) ← gpsBytes s xs
    return (s, lines ++ rest)

/-! ## The loop -/

/-- `select` on a read set, with the descriptors that have data before it returns: what is not
ready is cleared. -/
def select (readfs ready : Finset Nat) : Finset Nat := readfs.filter (· ∈ ready)

/-- What `read` stores in `char buffer[128]`. -/
structure GpsRead where
  bytes : List UInt8
  length_le : bytes.length ≤ 128

/-- What the system does in a round: the descriptors with data before the second is over, and the
result of `read`, which may be an error. -/
structure GpsCycle where
  ready : Finset Nat
  read : Option GpsRead

/-- The variables of `gps_main`. -/
structure GpsState where
  gpsFd : Nat
  readfs : Finset Nat
  line : GpsLine

/-- Before the loop: `FD_ZERO`, `FD_SET`. -/
def gpsStart (gpsFd : Nat) (line : Buf) : GpsState := ⟨gpsFd, insert gpsFd ∅, line, 0⟩

/-- A round of the loop. -/
def gpsCycle (s : GpsState) (c : GpsCycle) : Option (GpsState × List (List UInt8)) :=
  let readfs := select s.readfs c.ready
  if s.gpsFd ∈ readfs then do
    let buffer ← c.read
    let (line, lines) ← gpsBytes s.line buffer.bytes
    return ({ s with readfs, line }, lines)
  else
    -- waiting for new data
    some ({ s with readfs }, [])

/-- What a round can do: read what has arrived, or clear the port in the read set. -/
theorem gpsCycle_cases {s s' : GpsState} {c : GpsCycle} {lines : List (List UInt8)}
    (h : gpsCycle s c = some (s', lines)) :
    (s.gpsFd ∈ select s.readfs c.ready ∧ ∃ buffer line, c.read = some buffer ∧
      gpsBytes s.line buffer.bytes = some (line, lines) ∧
      s' = { s with readfs := select s.readfs c.ready, line }) ∨
    (s.gpsFd ∉ select s.readfs c.ready ∧ lines = [] ∧
      s' = { s with readfs := select s.readfs c.ready }) := by
  simp only [gpsCycle] at h
  split at h
  · rename_i hset
    simp only [Option.bind_eq_bind, Option.bind_eq_some_iff] at h
    obtain ⟨buffer, hread, ⟨line, out⟩, hbytes, hres⟩ := h
    cases hres
    exact .inl ⟨hset, buffer, line, hread, hbytes, rfl⟩
  · rename_i hset
    cases h
    exact .inr ⟨hset, rfl, rfl⟩

theorem gpsCycle_readfs {s s' : GpsState} {c : GpsCycle} {lines : List (List UInt8)}
    (h : gpsCycle s c = some (s', lines)) :
    s'.gpsFd = s.gpsFd ∧ s'.readfs = select s.readfs c.ready := by
  obtain ⟨-, buffer, line, -, -, rfl⟩ | ⟨-, -, rfl⟩ := gpsCycle_cases h
  · exact ⟨rfl, rfl⟩
  · exact ⟨rfl, rfl⟩

theorem gpsCycle_reads {s s' : GpsState} {c : GpsCycle} {lines : List (List UInt8)}
    (hset : s.gpsFd ∈ s.readfs) (hready : s.gpsFd ∈ c.ready)
    (h : gpsCycle s c = some (s', lines)) :
    ∃ buffer, c.read = some buffer ∧ gpsBytes s.line buffer.bytes = some (s'.line, lines) := by
  obtain ⟨-, buffer, line, hread, hbytes, rfl⟩ | ⟨hclear, -, -⟩ := gpsCycle_cases h
  · exact ⟨buffer, hread, hbytes⟩
  · exact absurd (Finset.mem_filter.mpr ⟨hset, hready⟩) hclear

/-! ## Runs -/

/-- The reader, and the rounds that are over. -/
structure GpsRun where
  state : GpsState
  past : List GpsCycle

def gpsRunStep (r : GpsRun) (c : GpsCycle) : Option GpsRun :=
  (gpsCycle r.state c).map fun (s, _) => ⟨s, r.past ++ [c]⟩

/-- `select` is called with the port in its read set, and what has arrived is read. -/
def Hears (r : GpsRun) (c : GpsCycle) : Prop :=
  r.state.gpsFd ∈ r.state.readfs ∧
    (r.state.gpsFd ∈ c.ready → ∀ s' lines, gpsCycle r.state c = some (s', lines) →
      ∃ buffer, c.read = some buffer ∧ gpsBytes r.state.line buffer.bytes = some (s'.line, lines))

/-- No `select` before has timed out. -/
def NoPause (r : GpsRun) (_ : GpsCycle) : Prop := ∀ c ∈ r.past, r.state.gpsFd ∈ c.ready

/-- The port stays in the read set until the first timeout, and is never put back. -/
def GpsRun.Inv (r : GpsRun) : Prop :=
  r.state.gpsFd ∈ r.state.readfs ↔ ∀ c ∈ r.past, r.state.gpsFd ∈ c.ready

theorem gpsRunStep_inv {r r' : GpsRun} {c : GpsCycle} (hr : r.Inv)
    (h : gpsRunStep r c = some r') : r'.Inv := by
  obtain ⟨⟨s', lines⟩, hcycle, rfl⟩ := Option.map_eq_some_iff.mp h
  obtain ⟨hfd, hset⟩ := gpsCycle_readfs hcycle
  simp only [GpsRun.Inv] at hr ⊢
  rw [hfd, hset, select, Finset.mem_filter, hr]
  simp only [List.mem_append, List.mem_singleton, or_imp, forall_and, forall_eq]

theorem hears_iff {r : GpsRun} {c : GpsCycle} (hr : r.Inv) : Hears r c ↔ NoPause r c := by
  constructor
  · exact fun h => hr.mp h.1
  · intro h
    have hset := hr.mpr h
    exact ⟨hset, fun hready s' lines hcycle => gpsCycle_reads hset hready hcycle⟩

/-- **The reader hears the port at each round exactly as long as no `select` has timed out.** -/
theorem gpsMain_hears (gpsFd : Nat) (line : Buf) (cycles : List GpsCycle) :
    Run.Throughout gpsRunStep Hears ⟨gpsStart gpsFd line, []⟩ cycles ↔
      Run.Throughout gpsRunStep NoPause ⟨gpsStart gpsFd line, []⟩ cycles := by
  have hstart : (⟨gpsStart gpsFd line, []⟩ : GpsRun).Inv := by
    simp [GpsRun.Inv, gpsStart]
  exact Run.Throughout.congr (fun _ _ _ _ hr h => gpsRunStep_inv hr h)
    (fun _ _ _ hr => hears_iff hr) hstart

/-- A second of silence, and then a byte, which is not read. -/
theorem gpsMain_deaf :
    let cycles : List GpsCycle := [⟨∅, none⟩, ⟨{3}, some ⟨[0x24], by decide⟩⟩]
    (cycles.foldlM gpsRunStep ⟨gpsStart 3 (ofList []), []⟩).map
        (fun r => (r.state.readfs, r.state.line.lineLen)) = some (∅, 0) ∧
      ¬Run.Throughout gpsRunStep Hears ⟨gpsStart 3 (ofList []), []⟩ cycles := by
  refine ⟨rfl, fun h => ?_⟩
  have hnext := h.2 ⟨⟨3, ∅, ofList [], 0⟩, [⟨∅, none⟩]⟩ rfl
  exact absurd hnext.1.1 (by decide)

end Rhex
