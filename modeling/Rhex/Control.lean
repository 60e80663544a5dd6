import Mathlib
import Rhex.Lib.Run
import Rhex.Mavlink

/-!
# The control service (`rhex_ground/rhex_control.c`)

The service accepts connections on a local port and keeps the clients in 32 slots. In each cycle it
accepts at most one of them and then receives from those that are ready.

* `acceptClient`, `serve` — the two halves of a cycle; `controlStep` — a cycle.
* `ControlState.Slots` — each occupied slot is a descriptor of its own.
* `slots_kept` — the runs in which each connection has a slot until it ends.

Beside the variables of `rhex_control_main`, the model keeps which accepted descriptors are open,
and `accept` returns one that is not.
-/

namespace Rhex

open Memory

/-! ## Data -/

/-- The variables of `rhex_control_main`, `mavlink_tx_seq`, and the open descriptors of clients. -/
structure ControlState where
  clients : Fin 32 → Int
  cmask : BitVec 32
  txSeq : UInt8
  fds : Finset Int

namespace ControlState

/-- No client; `clients` is not initialised. -/
def start (clients : Fin 32 → Int) : ControlState := ⟨clients, 0, 0, ∅⟩

/-- The bit of the slot is set. -/
def Occupied (s : ControlState) (i : Fin 32) : Prop := s.cmask.getLsbD i = true

instance (s : ControlState) (i : Fin 32) : Decidable (s.Occupied i) :=
  inferInstanceAs (Decidable (_ = true))

/-- The system returns a descriptor that is not open. -/
def Accepts (s : ControlState) (c : Int) : Prop := c ∉ s.fds

instance (s : ControlState) (c : Int) : Decidable (s.Accepts c) :=
  inferInstanceAs (Decidable (¬_))

end ControlState

/-- What `recvfrom` returns: a negative number, or the number of these bytes. -/
inductive RecvResult where
  | failed
  | data (bytes : List UInt8)

/-- What a cycle meets: the result of `accept`, what is received from the slots that `select` finds
ready, and what the receive buffers hold before. -/
structure ControlCycle where
  c : Int
  ready : Fin 32 → Option RecvResult
  stale : Fin 32 → Buf

/-- What a cycle does. -/
inductive ControlEvent where
  | received (fd : Int) (data : List UInt8)
  | sent (fd : Int) (frame : List UInt8)
  | closed (fd : Int)
deriving DecidableEq

/-! ## A cycle -/

/-- `__builtin_ctz`, undefined for 0. -/
def builtinCtz (x : BitVec 32) : Option (Fin 32) :=
  if h : x = 0 then none else some ⟨x.ctz.toNat, BitVec.lt_def.mp (BitVec.ctz_lt_iff_ne_zero.mpr h)⟩

/-- The result of `accept` is entered. -/
def acceptClient (s : ControlState) (c : Int) : Option ControlState :=
  if 0 < c then
    (builtinCtz (~~~s.cmask)).map fun cn =>
      { s with
        clients := Function.update s.clients cn c
        cmask := s.cmask ||| BitVec.twoPow 32 cn
        fds := insert c s.fds }
  else some s

/-- The loop body for slot `i`. -/
def serveSlot (e : ControlCycle) (i : Fin 32) (s : ControlState) :
    List ControlEvent × ControlState :=
  if s.Occupied i then
    match e.ready i with
    | none => ([], s)
    | some .failed =>
      ([.closed (s.clients i)], { s with
        cmask := s.cmask &&& ~~~BitVec.twoPow 32 i
        fds := s.fds.erase (s.clients i) })
    | some (.data bytes) =>
      let data := bytes.take sizeofMavlinkMessage
      match controlParseMsg (memcpy (e.stale i) 0 data) s.txSeq with
      | none => ([.received (s.clients i) data], s)
      | some frame =>
        ([.received (s.clients i) data, .sent (s.clients i) frame],
          { s with txSeq := s.txSeq + 1 })
  else ([], s)

def serve (e : ControlCycle) : List (Fin 32) → ControlState → List ControlEvent × ControlState
  | [], s => ([], s)
  | i :: is, s =>
    let (out, s) := serveSlot e i s
    let (out', s) := serve e is s
    (out ++ out', s)

/-- A cycle of `rhex_control_main`. -/
def controlStep (s : ControlState) (e : ControlCycle) :
    Option (List ControlEvent × ControlState) :=
  if s.Accepts e.c then (acceptClient s e.c).map (serve e (List.finRange 32)) else none

/-- The state after a cycle. -/
def controlNext (s : ControlState) (e : ControlCycle) : Option ControlState :=
  (controlStep s e).map Prod.snd

/-! ## The mask -/

theorem getLsbD_twoPow_iff (i j : Fin 32) : (BitVec.twoPow 32 i).getLsbD j = true ↔ j = i := by
  rw [BitVec.getLsbD_twoPow, Bool.and_eq_true, decide_eq_true_iff, decide_eq_true_iff]
  exact ⟨fun h => Fin.ext h.2.symm, fun h => ⟨i.isLt, congrArg Fin.val h.symm⟩⟩

theorem getLsbD_or_twoPow (m : BitVec 32) (i j : Fin 32) :
    (m ||| BitVec.twoPow 32 i).getLsbD j = true ↔ m.getLsbD j = true ∨ j = i := by
  rw [BitVec.getLsbD_or, Bool.or_eq_true, getLsbD_twoPow_iff]

theorem getLsbD_and_not_twoPow (m : BitVec 32) (i j : Fin 32) :
    (m &&& ~~~BitVec.twoPow 32 i).getLsbD j = true ↔ m.getLsbD j = true ∧ j ≠ i := by
  rw [BitVec.getLsbD_and, Bool.and_eq_true, BitVec.getLsbD_not, Bool.and_eq_true,
    decide_eq_true_iff, Bool.not_eq_true', ← Bool.not_eq_true, getLsbD_twoPow_iff]
  exact and_congr_right fun _ => and_iff_right j.isLt

/-- The allocator fails exactly on a full table. -/
theorem builtinCtz_not (m : BitVec 32) : builtinCtz (~~~m) = none ↔ m = BitVec.allOnes 32 := by
  rw [builtinCtz, dite_eq_left_iff]
  constructor
  · intro h
    have hzero : ~~~m = 0 := by
      by_contra hne
      cases h hne
    rw [← BitVec.not_not (b := m), hzero]
    decide
  · rintro rfl hne
    exact absurd (by decide) hne

theorem not_getLsbD_of_builtinCtz {m : BitVec 32} {i : Fin 32} (h : builtinCtz (~~~m) = some i) :
    ¬m.getLsbD i = true := by
  rw [builtinCtz] at h
  split_ifs at h with hzero
  have hbit := BitVec.getLsbD_true_ctz_of_ne_zero hzero
  rw [← congrArg Fin.val (Option.some.inj h)]
  rw [BitVec.getLsbD_not, Bool.and_eq_true, Bool.not_eq_true'] at hbit
  rw [hbit.2]
  exact Bool.false_ne_true

/-! ## The table -/

namespace ControlState

/-- Each occupied slot is an open descriptor, and no descriptor has two slots. -/
structure Slots (s : ControlState) : Prop where
  isOpen : ∀ i, s.Occupied i → s.clients i ∈ s.fds
  distinct : ∀ i j, s.Occupied i → s.Occupied j → s.clients i = s.clients j → i = j

variable {s s' : ControlState} {c : Int} {e : ControlCycle}

theorem start_slots (clients : Fin 32 → Int) : (start clients).Slots := by
  have hfree : ∀ i, ¬(start clients).Occupied i := by
    intro i
    rw [Occupied, start]
    simp
  exact ⟨fun i hi => absurd hi (hfree i), fun i _ hi => absurd hi (hfree i)⟩

theorem acceptClient_cases (h : acceptClient s c = some s') : ¬0 < c ∧ s' = s ∨
    0 < c ∧ ∃ cn, ¬s.Occupied cn ∧ s'.clients = Function.update s.clients cn c ∧
      (∀ i, s'.Occupied i ↔ s.Occupied i ∨ i = cn) ∧ s'.fds = insert c s.fds := by
  rw [acceptClient] at h
  split_ifs at h with hc
  · obtain ⟨cn, hcn, rfl⟩ := Option.map_eq_some_iff.mp h
    exact .inr ⟨hc, cn, not_getLsbD_of_builtinCtz hcn, rfl,
      fun i => getLsbD_or_twoPow s.cmask cn i, rfl⟩
  · exact .inl ⟨hc, (Option.some.inj h).symm⟩

/-- A new client has a slot of its own. -/
theorem Slots.acceptClient (hs : s.Slots) (hc : s.Accepts c) (h : acceptClient s c = some s') :
    s'.Slots := by
  rcases acceptClient_cases h with ⟨-, rfl⟩ | ⟨-, cn, hfree, hclients, hocc, hfds⟩
  · exact hs
  · have hkeep : ∀ i, s.Occupied i → s'.clients i = s.clients i := by
      intro i hi
      have hne : i ≠ cn := by
        rintro rfl
        exact hfree hi
      rw [hclients, Function.update_of_ne hne]
    have hnew : s'.clients cn = c := by
      rw [hclients, Function.update_self]
    have hne : ∀ i, s.Occupied i → s'.clients i ≠ c := by
      intro i hi heq
      rw [hkeep i hi] at heq
      exact hc (heq ▸ hs.isOpen i hi)
    constructor
    · intro i hi
      rw [hfds, Finset.mem_insert]
      rcases (hocc i).mp hi with hi | rfl
      · exact .inr (hkeep i hi ▸ hs.isOpen i hi)
      · exact .inl hnew
    · intro i j hi hj heq
      rcases (hocc i).mp hi with hi | rfl
      · rcases (hocc j).mp hj with hj | rfl
        · rw [hkeep i hi, hkeep j hj] at heq
          exact hs.distinct i j hi hj heq
        · exact absurd (heq.trans hnew) (hne i hi)
      · rcases (hocc j).mp hj with hj | rfl
        · exact absurd (heq.symm.trans hnew) (hne j hj)
        · rfl

/-- What the loop body leaves of the table: a slot whose client has failed is free. -/
theorem serveSlot_table (e : ControlCycle) (i : Fin 32) (s : ControlState) :
    (serveSlot e i s).2.clients = s.clients ∧
      (∀ j, (serveSlot e i s).2.Occupied j ↔
        s.Occupied j ∧ ¬(j = i ∧ e.ready i = some .failed)) ∧
      ∀ fd ∈ s.fds, fd ∈ (serveSlot e i s).2.fds ∨
        fd = s.clients i ∧ s.Occupied i ∧ e.ready i = some .failed := by
  rw [serveSlot]
  split_ifs with hocc
  · cases hready : e.ready i with
    | none => exact ⟨rfl, fun j => by simp, fun fd hfd => .inl hfd⟩
    | some r =>
      cases r with
      | failed =>
        refine ⟨rfl, fun j => ?_, fun fd hfd => ?_⟩
        · exact (getLsbD_and_not_twoPow s.cmask i j).trans (by simp [Occupied])
        · by_cases heq : fd = s.clients i
          · exact .inr ⟨heq, hocc, rfl⟩
          · exact .inl (Finset.mem_erase.mpr ⟨heq, hfd⟩)
      | data bytes =>
        dsimp only
        cases controlParseMsg _ s.txSeq with
        | none => exact ⟨rfl, fun j => by simp, fun fd hfd => .inl hfd⟩
        | some frame => exact ⟨rfl, fun j => by simp [Occupied], fun fd hfd => .inl hfd⟩
  · refine ⟨rfl, fun j => ⟨fun hj => ⟨hj, ?_⟩, And.left⟩, fun fd hfd => .inl hfd⟩
    rintro ⟨rfl, -⟩
    exact hocc hj

/-- The loop body keeps the table. -/
theorem Slots.serveSlot (hs : s.Slots) (e : ControlCycle) (i : Fin 32) :
    (serveSlot e i s).2.Slots := by
  obtain ⟨hclients, hocc, hfds⟩ := serveSlot_table e i s
  constructor
  · intro j hj
    obtain ⟨hj, hkept⟩ := (hocc j).mp hj
    rw [hclients]
    rcases hfds _ (hs.isOpen j hj) with hfd | ⟨heq, hi, hfailed⟩
    · exact hfd
    · exact absurd ⟨hs.distinct j i hj hi heq, hfailed⟩ hkept
  · intro j k hj hk heq
    rw [hclients] at heq
    exact hs.distinct j k ((hocc j).mp hj).1 ((hocc k).mp hk).1 heq

theorem Slots.serve (hs : s.Slots) (e : ControlCycle) (is : List (Fin 32)) :
    (serve e is s).2.Slots := by
  induction is generalizing s with
  | nil => exact hs
  | cons i is ih => exact ih (hs.serveSlot e i)

theorem serve_occupied {i : Fin 32} (hready : e.ready i ≠ some .failed) (is : List (Fin 32)) :
    (Rhex.serve e is s).2.Occupied i ↔ s.Occupied i := by
  induction is generalizing s with
  | nil => exact Iff.rfl
  | cons j is ih =>
    refine ih.trans (((serveSlot_table e j s).2.1 i).trans (and_iff_left ?_))
    rintro ⟨rfl, hfailed⟩
    exact hready hfailed

theorem Slots.controlNext (hs : s.Slots) (h : controlNext s e = some s') : s'.Slots := by
  rw [Rhex.controlNext, controlStep] at h
  split_ifs at h with hc
  · obtain ⟨r, hr, rfl⟩ := Option.map_eq_some_iff.mp h
    obtain ⟨s₁, hs₁, rfl⟩ := Option.map_eq_some_iff.mp hr
    exact (hs.acceptClient hc hs₁).serve e _
  · cases h

end ControlState

/-! ## Clients -/

section

variable (s : ControlState) (e : ControlCycle)

/-- A new client is given a slot that is free, the table is kept, and the slot of a client whose end
of stream is read is free afterwards. -/
structure SlotsKept : Prop where
  chosen : 0 < e.c → ∃ cn, builtinCtz (~~~s.cmask) = some cn ∧ ¬s.Occupied cn
  kept : ∀ s', controlNext s e = some s' → s'.Slots
  freed : ∀ s₁ s' i, acceptClient s e.c = some s₁ → controlNext s e = some s' → s₁.Occupied i →
    e.ready i = some (.data []) → ¬s'.Occupied i

/-- There is a slot for a new client, and no end of stream is read. -/
structure SlotsQuiet : Prop where
  room : 0 < e.c → s.cmask ≠ BitVec.allOnes 32
  nonempty : ∀ s₁ i, acceptClient s e.c = some s₁ → s₁.Occupied i → e.ready i ≠ some (.data [])

end

/-- **A cycle** keeps the slots if and only if it is quiet. -/
theorem slotsKept_iff {s : ControlState} {e : ControlCycle} (hs : s.Slots) (hc : s.Accepts e.c) :
    SlotsKept s e ↔ SlotsQuiet s e := by
  constructor
  · intro h
    constructor
    · intro hpos hfull
      obtain ⟨cn, hcn, -⟩ := h.chosen hpos
      rw [(builtinCtz_not s.cmask).mpr hfull] at hcn
      cases hcn
    · intro s₁ i hs₁ hi hready
      have hnext : controlNext s e = some (serve e (List.finRange 32) s₁).2 := by
        rw [controlNext, controlStep, if_pos hc, hs₁]
        rfl
      refine h.freed s₁ _ i hs₁ hnext hi hready ((ControlState.serve_occupied ?_ _).mpr hi)
      rw [hready]
      simp
  · intro h
    refine ⟨fun hpos => ?_, fun s' hs' => hs.controlNext hs', fun s₁ s' i hs₁ _ hi hready =>
      absurd hready (h.nonempty s₁ i hs₁ hi)⟩
    cases hcn : builtinCtz (~~~s.cmask) with
    | none => exact absurd ((builtinCtz_not s.cmask).mp hcn) (h.room hpos)
    | some cn => exact ⟨cn, rfl, not_getLsbD_of_builtinCtz hcn⟩

/-- **The slots** are kept in a run if and only if each of its cycles is quiet. -/
theorem slots_kept (clients : Fin 32 → Int) (cycles : List ControlCycle) :
    Run.Throughout controlNext (fun s e => s.Accepts e.c → SlotsKept s e) (.start clients) cycles ↔
      Run.Throughout controlNext (fun s e => s.Accepts e.c → SlotsQuiet s e) (.start clients)
        cycles := by
  refine Run.Throughout.congr (I := ControlState.Slots)
    (fun s e _ s' hs h => hs.controlNext h) ?_ (ControlState.start_slots clients)
  intro s e _ hs
  exact forall_congr' fun hc => slotsKept_iff hs hc

/-- A client connects and closes at once. -/
def cycleClosed : ControlCycle where
  c := 4
  ready i := if i.val = 0 then some (.data []) else none
  stale _ _ := 0

/-- The slot of a client that has closed is not freed. -/
theorem slot_not_freed : ¬Run.Throughout controlNext (fun s e => s.Accepts e.c → SlotsKept s e)
    (.start fun _ => 0) [cycleClosed] := by
  rintro ⟨hkept, -⟩
  have haccepted : (acceptClient (.start fun _ => 0) 4).map (fun s => decide (s.Occupied 0)) =
      some true := by
    decide +kernel
  obtain ⟨s₁, hs₁, hocc⟩ := Option.map_eq_some_iff.mp haccepted
  have hnext : (controlNext (.start fun _ => 0) cycleClosed).map
      (fun s => decide (s.Occupied 0)) = some true := by
    decide +kernel
  obtain ⟨s', hs', hocc'⟩ := Option.map_eq_some_iff.mp hnext
  exact (hkept (by decide)).freed s₁ s' 0 hs₁ hs' (of_decide_eq_true hocc) rfl
    (of_decide_eq_true hocc')

end Rhex
