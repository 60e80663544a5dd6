import Mathlib
import Rhex.Gps

/-!
# The lines of the GPS port

`gps_main` collects the bytes of its reads in `line`, and gives the line to `parse_line` at a
`\r` or `\n`. What has been collected survives from one read to the next.

* `closedRuns`, `openRun` — the runs of bytes between the line ends of a stream.
* `gpsMain_lines` — the strings that are parsed are the lines of the stream, however the reads
  split it.
* `gpsMain_bounds` — when every store to `line` lies in it: the length of a line is not checked.
-/

namespace Rhex

open Memory

/-! ## Runs of a stream -/

/-- `\r` or `\n`. -/
def isLineEnd (x : UInt8) : Bool := x = 0x0d ∨ x = 0x0a

/-- The maximal runs without a line end that are followed by one. -/
def closedRuns (stream : List UInt8) : List (List UInt8) := (stream.splitOnP isLineEnd).dropLast

/-- The run behind the last line end. -/
def openRun (stream : List UInt8) : List UInt8 :=
  (stream.splitOnP isLineEnd).getLast (List.splitOnP_ne_nil isLineEnd stream)

/-- A run fits into `line`, with the terminating zero if it is closed. -/
def LineFits (stream : List UInt8) : Prop :=
  (∀ run ∈ closedRuns stream, run.length ≤ 255) ∧ (openRun stream).length ≤ 256

section

variable {q xs : List UInt8} {x : UInt8}

theorem closedRuns_open (hq : ∀ y ∈ q, isLineEnd y = false) : closedRuns q = [] := by
  rw [closedRuns, List.splitOnP_eq_singleton hq]
  rfl

theorem closedRuns_end (hq : ∀ y ∈ q, isLineEnd y = false) (hx : isLineEnd x = true) :
    closedRuns (q ++ x :: xs) = q :: closedRuns xs := by
  rw [closedRuns, List.splitOnP_append_cons_of_forall_mem hq x hx,
    List.dropLast_cons_of_ne_nil (List.splitOnP_ne_nil isLineEnd xs)]
  rfl

theorem lineFits_open (hq : ∀ y ∈ q, isLineEnd y = false) : LineFits q ↔ q.length ≤ 256 := by
  have hrun : openRun q = q := by
    simp [openRun, List.splitOnP_eq_singleton hq]
  simp [LineFits, closedRuns_open hq, hrun]

theorem lineFits_end (hq : ∀ y ∈ q, isLineEnd y = false) (hx : isLineEnd x = true) :
    LineFits (q ++ x :: xs) ↔ q.length ≤ 255 ∧ LineFits xs := by
  have hrun : openRun (q ++ x :: xs) = openRun xs := by
    simp [openRun, List.splitOnP_append_cons_of_forall_mem hq x hx,
      List.getLast_cons (List.splitOnP_ne_nil isLineEnd xs)]
  simp [LineFits, closedRuns_end hq hx, hrun, and_assoc]

/-- The run that a stream starts with is not too long if the stream fits. -/
theorem LineFits.length_le (hq : ∀ y ∈ q, isLineEnd y = false) (h : LineFits (q ++ xs)) :
    q.length ≤ 256 := by
  induction xs generalizing q with
  | nil =>
    rw [List.append_nil] at h
    exact (lineFits_open hq).mp h
  | cons x xs ih =>
    cases hx : isLineEnd x with
    | true =>
      have hlen := ((lineFits_end hq hx).mp h).1
      omega
    | false =>
      rw [List.append_cons] at h
      have hlen := ih (by simpa [or_imp, forall_and] using ⟨hq, hx⟩) h
      rw [List.length_append] at hlen
      omega

theorem lineFits_of_runs {stream : List UInt8}
    (h : ∀ run ∈ stream.splitOnP isLineEnd, run.length ≤ 255) : LineFits stream := by
  refine ⟨fun run hrun => h run (List.mem_of_mem_dropLast hrun), ?_⟩
  have hopen := h (openRun stream) (List.getLast_mem _)
  omega

end

/-! ## Bytes -/

/-- What has been collected: the bytes `q` since the last line end. -/
structure GpsLine.Collects (s : GpsLine) (q : List UInt8) : Prop where
  lineLen : s.lineLen = q.length
  line : Stored s.line 0 q
  no_end : ∀ y ∈ q, isLineEnd y = false
  length_le : q.length ≤ 256

/-- A store to `line`, if the byte makes one, is below its end. -/
def StoreInBounds (s : GpsLine) (x : UInt8) : Prop :=
  isLineEnd x = false ∨ 0 < s.lineLen → s.lineLen < 256

/-- `gpsByte`, without what is parsed. -/
def gpsByteStep (s : GpsLine) (x : UInt8) : Option GpsLine := (gpsByte s x).map Prod.fst

theorem GpsLine.collects_nil (line : Buf) : (⟨line, 0⟩ : GpsLine).Collects [] :=
  ⟨rfl, rfl, by simp, by simp⟩

theorem lineString_store {b : Buf} {q : List UInt8} (hq : Stored b 0 q) (hlen : q.length < 256)
    (hzero : 0 ∉ q) : lineString (memcpy b q.length [0]) 256 = q := by
  have hslice : slice (memcpy b q.length [0]) 0 (q.length + 1) = q ++ [0] := by
    have happ := slice_memcpy_append b 0 q.length [0]
    rw [Nat.zero_add, hq] at happ
    exact happ
  obtain ⟨k, hk⟩ := Nat.exists_eq_add_of_le (show q.length + 1 ≤ 256 by omega)
  have hq' : ∀ y ∈ q, decide (y ≠ 0) = true := by
    intro y hy
    exact decide_eq_true fun h => hzero (h ▸ hy)
  rw [lineString, hk, slice_add, hslice, List.append_assoc, List.takeWhile_append_of_pos hq']
  simp

section

variable {s : GpsLine} {q xs : List UInt8} {x : UInt8}

/-- A line end closes the run. -/
theorem gpsByte_end (hs : s.Collects q) (hx : isLineEnd x = true) (hlen : q.length ≤ 255) :
    ∃ s' lines, gpsByte s x = some (s', lines) ∧ s'.Collects [] ∧
      (0 ∉ q → lines = [q].filter (· ≠ [])) := by
  have hx' : x = 0x0d ∨ x = 0x0a := by simpa [isLineEnd] using hx
  rw [gpsByte, if_pos hx']
  cases hq : q with
  | nil =>
    have hzero : s.lineLen = 0 := by rw [hs.lineLen, hq]; rfl
    rw [if_neg (by omega)]
    exact ⟨_, _, rfl, GpsLine.collects_nil s.line, fun _ => rfl⟩
  | cons y ys =>
    rw [← hq]
    have hpos : 0 < s.lineLen := by rw [hs.lineLen, hq, List.length_cons]; omega
    rw [if_pos hpos, GpsLine.store, hs.lineLen, if_pos (by omega)]
    refine ⟨_, _, rfl, GpsLine.collects_nil _, fun hzero => ?_⟩
    rw [lineString_store hs.line (by omega) hzero, hq]
    rfl

/-- Another byte is collected. -/
theorem gpsByte_collects (hs : s.Collects q) (hx : isLineEnd x = false) (hlen : q.length ≤ 255) :
    ∃ s', gpsByte s x = some (s', []) ∧ s'.Collects (q ++ [x]) := by
  have hx' : ¬(x = 0x0d ∨ x = 0x0a) := by simpa [isLineEnd] using hx
  rw [gpsByte, if_neg hx', GpsLine.store, hs.lineLen, if_pos (by omega)]
  refine ⟨_, rfl, ?_⟩
  constructor
  · simp
  · have happ := slice_memcpy_append s.line 0 q.length [x]
    rw [Nat.zero_add, hs.line] at happ
    rw [Stored, List.length_append]
    exact happ
  · simpa [or_imp, forall_and] using ⟨hs.no_end, hx⟩
  · rw [List.length_append, List.length_singleton]
    omega

/-- The stores for some bytes are in bounds exactly when the stream fits. -/
theorem storeInBounds_iff (hs : s.Collects q) :
    Run.Throughout gpsByteStep StoreInBounds s xs ↔ LineFits (q ++ xs) := by
  induction xs generalizing s q with
  | nil =>
    rw [List.append_nil, lineFits_open hs.no_end]
    exact iff_of_true trivial hs.length_le
  | cons x xs ih =>
    rw [Run.Throughout, StoreInBounds, hs.lineLen]
    cases hx : isLineEnd x with
    | true =>
      rw [lineFits_end hs.no_end hx]
      have hlen : (true = false ∨ 0 < q.length → q.length < 256) ↔ q.length ≤ 255 := by
        simp only [Bool.true_eq_false, false_or]
        omega
      rw [hlen]
      refine and_congr_right fun hle => ?_
      obtain ⟨s', lines, hbyte, hs', -⟩ := gpsByte_end hs hx hle
      simp [gpsByteStep, hbyte, ih hs']
    | false =>
      rw [List.append_cons]
      constructor
      · intro h
        obtain ⟨s', hbyte, hs'⟩ := gpsByte_collects hs hx (Nat.le_of_lt_succ (h.1 (.inl rfl)))
        exact (ih hs').mp (h.2 s' (by simp [gpsByteStep, hbyte]))
      · intro h
        have hno : ∀ y ∈ q ++ [x], isLineEnd y = false := by
          simpa [or_imp, forall_and] using ⟨hs.no_end, hx⟩
        have hle := h.length_le hno
        rw [List.length_append, List.length_singleton] at hle
        obtain ⟨s', hbyte, hs'⟩ := gpsByte_collects hs hx (by omega)
        refine ⟨fun _ => by omega, ?_⟩
        simp [gpsByteStep, hbyte, (ih hs').mpr h]

theorem gpsBytes_cons {s' s'' : GpsLine} {lines rest : List (List UInt8)}
    (hbyte : gpsByte s x = some (s', lines)) (hbytes : gpsBytes s' xs = some (s'', rest)) :
    gpsBytes s (x :: xs) = some (s'', lines ++ rest) := by
  simp [gpsBytes, hbyte, hbytes]

/-- The lines of some bytes that fit, behind those that were collected before. -/
theorem gpsBytes_lines (hs : s.Collects q) (hfit : LineFits (q ++ xs)) (hzero : 0 ∉ q ++ xs) :
    ∃ s', gpsBytes s xs = some (s', (closedRuns (q ++ xs)).filter (· ≠ [])) := by
  induction xs generalizing s q with
  | nil =>
    rw [List.append_nil, closedRuns_open hs.no_end]
    exact ⟨s, rfl⟩
  | cons x xs ih =>
    cases hx : isLineEnd x with
    | true =>
      obtain ⟨hle, hrest⟩ := (lineFits_end hs.no_end hx).mp hfit
      rw [List.mem_append, List.mem_cons, not_or, not_or] at hzero
      obtain ⟨s', lines, hbyte, hs', hlines⟩ := gpsByte_end hs hx hle
      obtain ⟨s'', hbytes⟩ := ih hs' hrest hzero.2.2
      refine ⟨s'', ?_⟩
      rw [gpsBytes_cons hbyte hbytes, hlines hzero.1, ← List.filter_append,
        closedRuns_end hs.no_end hx]
      rfl
    | false =>
      rw [List.append_cons] at hfit hzero ⊢
      have hno : ∀ y ∈ q ++ [x], isLineEnd y = false := by
        simpa [or_imp, forall_and] using ⟨hs.no_end, hx⟩
      have hle := hfit.length_le hno
      rw [List.length_append, List.length_singleton] at hle
      obtain ⟨s', hbyte, hs'⟩ := gpsByte_collects hs hx (by omega)
      obtain ⟨s'', hbytes⟩ := ih hs' hfit hzero
      exact ⟨s'', gpsBytes_cons hbyte hbytes⟩

end

/-! ## Reads -/

/-- The results of the reads of some rounds, up to one that fails. -/
def gpsReads (gpsFd : Nat) : Finset Nat → List GpsCycle → List GpsRead
  | _, [] => []
  | readfs, c :: cycles =>
    let readfs := select readfs c.ready
    if gpsFd ∈ readfs then
      match c.read with
      | none => []
      | some buffer => buffer :: gpsReads gpsFd readfs cycles
    else
      gpsReads gpsFd readfs cycles

/-- The strings given to `parse_line`, until the loop is left. -/
def gpsParsed : GpsState → List GpsCycle → List (List UInt8)
  | _, [] => []
  | s, c :: cycles =>
    match gpsCycle s c with
    | none => []
    | some (s', lines) => lines ++ gpsParsed s' cycles

/-- `gpsCycle`, without what is parsed. -/
def gpsStep (s : GpsState) (c : GpsCycle) : Option GpsState := (gpsCycle s c).map Prod.fst

/-- The stores of a round are in bounds. -/
def StoresInBounds (s : GpsState) (c : GpsCycle) : Prop :=
  s.gpsFd ∈ select s.readfs c.ready → ∀ buffer, c.read = some buffer →
    Run.Throughout gpsByteStep StoreInBounds s.line buffer.bytes

theorem gpsReads_ready (gpsFd : Nat) (reads : List GpsRead) :
    gpsReads gpsFd (insert gpsFd ∅) (reads.map fun buffer => ⟨{gpsFd}, some buffer⟩) = reads := by
  induction reads with
  | nil => rfl
  | cons buffer reads ih =>
    have hset : select (insert gpsFd ∅) {gpsFd} = insert gpsFd ∅ := by
      ext x
      simp [select]
    rw [List.map_cons, gpsReads]
    simp only [hset, ih, Finset.mem_insert_self, if_true]

theorem gpsBytes_append {s s' : GpsLine} {xs ys : List UInt8} {lines : List (List UInt8)}
    (h : gpsBytes s (xs ++ ys) = some (s', lines)) :
    ∃ t first rest, gpsBytes s xs = some (t, first) ∧ gpsBytes t ys = some (s', rest) ∧
      lines = first ++ rest := by
  induction xs generalizing s lines with
  | nil => exact ⟨s, [], lines, rfl, h, rfl⟩
  | cons x xs ih =>
    simp only [List.cons_append, gpsBytes, Option.bind_eq_bind, Option.bind_eq_some_iff] at h
    obtain ⟨⟨u, out⟩, hbyte, ⟨s'', more⟩, hbytes, hres⟩ := h
    cases hres
    obtain ⟨t, first, rest, hxs, hys, rfl⟩ := ih hbytes
    exact ⟨t, out ++ first, rest, gpsBytes_cons hbyte hxs, hys, (List.append_assoc ..).symm⟩

/-- What is parsed is what the bytes of all the reads give. -/
theorem gpsParsed_eq {s : GpsState} {cycles : List GpsCycle} {line : GpsLine}
    {lines : List (List UInt8)}
    (h : gpsBytes s.line ((gpsReads s.gpsFd s.readfs cycles).flatMap GpsRead.bytes) =
      some (line, lines)) : gpsParsed s cycles = lines := by
  induction cycles generalizing s line lines with
  | nil =>
    cases h
    rfl
  | cons c cycles ih =>
    rw [gpsReads] at h
    rw [gpsParsed, gpsCycle]
    split at h
    · rename_i hset
      simp only [hset, if_true]
      cases hread : c.read with
      | none =>
        rw [hread] at h
        cases h
        rfl
      | some buffer =>
        rw [hread, List.flatMap_cons] at h
        obtain ⟨t, first, rest, hfirst, hrest, rfl⟩ := gpsBytes_append h
        simp only [Option.bind_eq_bind, Option.bind_some, hfirst]
        exact congrArg (first ++ ·) (ih (s := ⟨s.gpsFd, _, t⟩) hrest)
    · rename_i hset
      simp only [hset, if_false, List.nil_append]
      exact ih (s := ⟨s.gpsFd, _, s.line⟩) h

/-- **The strings that are parsed are the non-empty runs of the stream that a line end follows,
however the reads split it.** -/
theorem gpsMain_lines (gpsFd : Nat) (line : Buf) (stream : List UInt8) (reads : List GpsRead)
    (hsplit : reads.flatMap GpsRead.bytes = stream)
    (hshort : ∀ run ∈ stream.splitOnP isLineEnd, run.length ≤ 255) (hzero : 0 ∉ stream)
    (cycles : List GpsCycle)
    (hreads : gpsReads gpsFd (gpsStart gpsFd line).readfs cycles = reads) :
    gpsParsed (gpsStart gpsFd line) cycles = (closedRuns stream).filter (· ≠ []) := by
  obtain ⟨s', hbytes⟩ := gpsBytes_lines (GpsLine.collects_nil line) (lineFits_of_runs hshort) hzero
  rw [← hsplit, ← hreads] at hbytes ⊢
  exact gpsParsed_eq hbytes

/-- A sentence that two reads split, with its `\r\n`, and the start of another one. -/
theorem gpsMain_lines_split :
    gpsParsed (gpsStart 3 (ofList []))
      ([⟨[0x24, 0x47], by decide⟩, ⟨[], by decide⟩, ⟨[0x50, 0x0d, 0x0a, 0x24], by decide⟩].map
        fun buffer => ⟨{3}, some buffer⟩) = [[0x24, 0x47, 0x50]] :=
  gpsMain_lines 3 (ofList []) [0x24, 0x47, 0x50, 0x0d, 0x0a, 0x24] _ rfl (by decide) (by decide) _
    (gpsReads_ready 3 _)

/-! ## The bound -/

/-- A byte that `gpsByte` takes is a step. -/
theorem gpsBytes_eq_foldlM (s : GpsLine) (xs : List UInt8) :
    (gpsBytes s xs).map Prod.fst = xs.foldlM gpsByteStep s := by
  induction xs generalizing s with
  | nil => rfl
  | cons x xs ih =>
    rw [List.foldlM_cons, gpsByteStep, gpsBytes]
    cases gpsByte s x with
    | none => rfl
    | some r =>
      obtain ⟨t, lines⟩ := r
      have ht := ih t
      simp only [Option.bind_eq_bind, Option.bind_some, Option.map_some] at ht ⊢
      rw [← ht]
      cases gpsBytes t xs <;> rfl

/-- The stores of some rounds are those for the bytes of their reads. -/
theorem storesInBounds_iff (s : GpsState) (cycles : List GpsCycle) :
    Run.Throughout gpsStep StoresInBounds s cycles ↔
      Run.Throughout gpsByteStep StoreInBounds s.line
        ((gpsReads s.gpsFd s.readfs cycles).flatMap GpsRead.bytes) := by
  induction cycles generalizing s with
  | nil => exact Iff.rfl
  | cons c cycles ih =>
    rw [Run.Throughout, StoresInBounds, gpsReads]
    by_cases hset : s.gpsFd ∈ select s.readfs c.ready
    · rw [if_pos hset]
      cases hread : c.read with
      | none =>
        have hend : gpsStep s c = none := by
          simp [gpsStep, gpsCycle, hset, hread]
        simp [hend, Run.Throughout]
      | some buffer =>
        have hnext : gpsStep s c = (buffer.bytes.foldlM gpsByteStep s.line).map
            (⟨s.gpsFd, select s.readfs c.ready, ·⟩) := by
          rw [← gpsBytes_eq_foldlM, gpsStep, gpsCycle]
          simp only [hset, hread, if_true, Option.bind_eq_bind, Option.bind_some]
          cases gpsBytes s.line buffer.bytes <;> rfl
        rw [List.flatMap_cons, Run.Throughout.append, hnext]
        simp [hset, ih]
    · have hnext : gpsStep s c = some ⟨s.gpsFd, select s.readfs c.ready, s.line⟩ := by
        simp [gpsStep, gpsCycle, hset]
      simp [hset, hnext, ih]

/-- **Every store to `line` lies in it exactly when no run of the stream is too long for it.** -/
theorem gpsMain_bounds (gpsFd : Nat) (line : Buf) (cycles : List GpsCycle) :
    Run.Throughout gpsStep StoresInBounds (gpsStart gpsFd line) cycles ↔
      LineFits ((gpsReads gpsFd (gpsStart gpsFd line).readfs cycles).flatMap GpsRead.bytes) := by
  rw [storesInBounds_iff]
  exact storeInBounds_iff (GpsLine.collects_nil line)

/-- A port that sends 257 bytes and no line end. -/
theorem gpsMain_overrun :
    ¬Run.Throughout gpsStep StoresInBounds (gpsStart 3 (ofList []))
      ([⟨List.replicate 128 0x7f, by simp⟩, ⟨List.replicate 128 0x7f, by simp⟩,
        ⟨[0x7f], by decide⟩].map fun buffer => ⟨{3}, some buffer⟩) := by
  rw [storesInBounds_iff, show (gpsStart 3 (ofList [])).line = ⟨ofList [], 0⟩ from rfl,
    storeInBounds_iff (GpsLine.collects_nil (ofList [])), List.nil_append,
    show (gpsStart 3 (ofList [])).readfs = insert 3 ∅ from rfl,
    show (gpsStart 3 (ofList [])).gpsFd = 3 from rfl, gpsReads_ready]
  simp only [List.flatMap_cons, List.flatMap_nil, List.append_nil]
  rw [lineFits_open]
  · simp only [List.length_append, List.length_replicate, List.length_singleton]
    omega
  · intro y hy
    simp only [List.mem_append, List.mem_replicate, List.mem_singleton] at hy
    obtain rfl : y = 0x7f := by tauto
    rfl

end Rhex
