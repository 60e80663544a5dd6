import Mathlib
import Rhex.VideoLink

/-!
# A restarted transmitter

Two sessions of the transmitter follow each other at one receiver, the second with `seq_nr` back
at 0. `process_payload` takes a block number more than 128 below the newest one for a restart and
drops what it has collected; it has no other sign of one.

* `taggedRun` — a run of the receiver that keeps note of the session each slot was filled from.
* `restart_output` — when the jump is that large, the second session is put out on its own.
* `restart_same_block` — when it is not, a block may be flushed that both sessions went into.
-/

namespace Rhex

open Memory

/-! ## Which session filled which slot -/

/-- The session a packet belongs to. -/
inductive Session where
  | first
  | second
deriving DecidableEq

/-- A run of the receiver with the session that filled each slot, and the sessions that went into
each block flushed. -/
structure TaggedRun where
  run : RxRun
  source : Nat → Session
  flushes : List (Nat → Option Session)

/-- The sessions of the packets that are in the buffer. -/
def TaggedRun.sources (t : TaggedRun) (j : Nat) : Option Session :=
  if j < packetsPerBlock ∧ (t.run.state.packets j).valid = true then some (t.source j) else none

/-- One packet of the session `session`. -/
def taggedStep (clk : Nat → UInt64) (session : Session) (t : TaggedRun) (pd : PayloadData) :
    Option TaggedRun := do
  let r ← processPayload clk t.run.state pd ⟨0, t.run.data⟩
  some
    { run := ⟨r.state, r.rxData.data, t.run.out ++ r.rxData.content,
        t.run.flushed ++ r.flushed.toList⟩
      source := match r.stored with
        | some (j, _) => Function.update t.source j session
        | none => t.source
      flushes := match r.flushed with
        | some _ => t.flushes ++ [t.sources]
        | none => t.flushes }

/-- The packets of one session. -/
def taggedRun (clk : Nat → UInt64) (session : Session) (t : TaggedRun) (dlv : List PayloadData) :
    Option TaggedRun :=
  dlv.foldlM (taggedStep clk session) t

/-- The sessions are not mixed in a flushed block. -/
def Unmixed (f : Nat → Option Session) : Prop :=
  ∀ i j x y, f i = some x → f j = some y → x = y

theorem taggedStep_run {clk : Nat → UInt64} (session : Session) {t : TaggedRun}
    {pd : PayloadData} {run : RxRun} (h : rxRunStep clk t.run pd = some run) :
    ∃ t', taggedStep clk session t pd = some t' ∧ t'.run = run := by
  rw [rxRunStep] at h
  cases hr : processPayload clk t.run.state pd ⟨0, t.run.data⟩ with
  | none => rw [hr] at h; simp at h
  | some r =>
    rw [hr] at h
    refine ⟨_, by rw [taggedStep, hr]; rfl, ?_⟩
    exact Option.some.inj h

theorem taggedRun_run {clk : Nat → UInt64} (session : Session) (dlv : List PayloadData)
    {t : TaggedRun} {run : RxRun} (h : rxRun clk t.run dlv = some run) :
    ∃ t', taggedRun clk session t dlv = some t' ∧ t'.run = run := by
  induction dlv generalizing t with
  | nil => exact ⟨t, rfl, Option.some.inj h⟩
  | cons pd dlv ih =>
    rw [rxRun, List.foldlM_cons] at h
    cases hs : rxRunStep clk t.run pd with
    | none => rw [hs] at h; simp at h
    | some run₁ =>
      rw [hs] at h
      obtain ⟨t₁, hstep, rfl⟩ := taggedStep_run session hs
      obtain ⟨t', hrun, ht'⟩ := ih h
      refine ⟨t', ?_, ht'⟩
      rw [taggedRun, List.foldlM_cons, hstep]
      exact hrun

/-- **What one packet does to the note**: it fills a free slot of the current block, comes too
late, or opens its block, which drops or flushes what was collected. -/
inductive Noted (session : Session) (t : TaggedRun) (pd : PayloadData) (t' : TaggedRun) : Prop where
  | same (hblock : t.run.state.maxBlockNum = pd.blockNum)
      (hmax : t'.run.state.maxBlockNum = t.run.state.maxBlockNum)
      (hsources : t'.sources = fun i =>
        (t.sources i).or (if i = pd.packetNum then some session else none))
      (hflushes : t'.flushes = t.flushes)
  | late (hlt : pd.blockNum < t.run.state.maxBlockNum)
      (hge : t.run.state.maxBlockNum ≤ (pd.blockNum : Int) + 128)
      (hmax : t'.run.state.maxBlockNum = t.run.state.maxBlockNum)
      (hsources : t'.sources = t.sources) (hflushes : t'.flushes = t.flushes)
  | drop (hdrop : t.run.state.maxBlockNum = -1 ∨
        (pd.blockNum : Int) + 128 < t.run.state.maxBlockNum)
      (hmax : t'.run.state.maxBlockNum = pd.blockNum)
      (hsources : t'.sources = fun i => if i = pd.packetNum then some session else none)
      (hflushes : t'.flushes = t.flushes)
  | flush (hnew : t.run.state.maxBlockNum < pd.blockNum) (hopen : t.run.state.maxBlockNum ≠ -1)
      (hmax : t'.run.state.maxBlockNum = pd.blockNum)
      (hsources : t'.sources = fun i => if i = pd.packetNum then some session else none)
      (hflushes : t'.flushes = t.flushes ++ [t.sources])

/-- The note of a buffer whose block the packet `pd` has just opened. -/
theorem sources_opened {session : Session} {t : TaggedRun} {pd : PayloadData} {r : RxStep}
    (hopened : Opened pd r) (data : Buf) (out : List UInt8) (flushed : List Int)
    (flushes : List (Nat → Option Session)) :
    TaggedRun.sources ⟨⟨r.state, data, out, flushed⟩,
      Function.update t.source pd.packetNum session, flushes⟩ =
        fun i => if i = pd.packetNum then some session else none := by
  funext i
  rw [TaggedRun.sources]
  by_cases hi : i = pd.packetNum
  · obtain ⟨p, hslot⟩ := hopened.slot
    subst hi
    simp only [hslot, fillSlot, packetNum_lt pd, and_self, if_true, Function.update_self]
  · rw [if_neg hi, if_neg]
    rintro ⟨hlt, hvalid⟩
    rw [(hopened.only i hlt hi).1] at hvalid
    exact absurd hvalid (by decide)

/-- **One packet of a session.** -/
theorem taggedStep_spec (clk : Nat → UInt64) (session : Session) {t : TaggedRun}
    (ht : RxInv t.run.state) {pd : PayloadData} (hcrc : pd.crcOk = true) :
    ∃ t', taggedStep clk session t pd = some t' ∧ RxInv t'.run.state ∧ Noted session t pd t' := by
  obtain ⟨r, hrun, hdone, hinv⟩ := processPayload_spec clk ht hcrc ⟨0, t.run.data⟩
  refine ⟨_, by rw [taggedStep, hrun]; rfl, hinv, ?_⟩
  cases hdone with
  | flush hnew hopen _ _ _ hflushed hopened =>
    simp only [hopened.stored, hflushed]
    exact Noted.flush hnew hopen hopened.max (sources_opened hopened _ _ _ _) rfl
  | «open» hnew _ hflushed hopened =>
    simp only [hopened.stored, hflushed]
    exact Noted.drop hnew hopened.max (sources_opened hopened _ _ _ _) rfl
  | store hblock hfree _ hflushed hmax _ hpackets hstored =>
    simp only [hstored, hflushed]
    refine Noted.same hblock hmax ?_ rfl
    funext i
    simp only [TaggedRun.sources, hpackets]
    by_cases hi : i = pd.packetNum
    · subst hi
      simp only [Function.update_self, hfree, fillSlot, packetNum_lt pd, and_self, if_true,
        Bool.false_eq_true, and_false, if_false, Option.none_or]
    · simp only [Function.update_of_ne hi, if_neg hi, Option.or_none]
  | duplicate hblock hfilled hr =>
    subst hr
    refine Noted.same hblock rfl ?_ rfl
    funext i
    by_cases hi : i = pd.packetNum
    · subst hi
      simp only [TaggedRun.sources, hfilled, packetNum_lt pd, and_self, if_true, Option.some_or]
    · rw [if_neg hi, Option.or_none]
      rfl
  | late hlt hge hr =>
    subst hr
    exact Noted.late hlt hge rfl rfl rfl

/-! ## A session on its own -/

/-- All packets in the buffer are of one session. -/
structure From (session : Session) (t : TaggedRun) : Prop where
  inv : RxInv t.run.state
  source : ∀ j x, t.sources j = some x → x = session

theorem sources_single {session : Session} {t : TaggedRun} {i : Nat}
    (h : t.sources = fun j => if j = i then some session else none) (j : Nat) (x : Session)
    (hx : t.sources j = some x) : x = session := by
  rw [h] at hx
  dsimp only at hx
  split_ifs at hx
  exact (Option.some.inj hx).symm

theorem From.unmixed {session : Session} {t : TaggedRun} (h : From session t) :
    Unmixed t.sources :=
  fun i j x y hx hy => (h.source i x hx).trans (h.source j y hy).symm

/-- **One more packet of the same session.** -/
theorem From.step (clk : Nat → UInt64) {session : Session} {t : TaggedRun} (h : From session t)
    {pd : PayloadData} (hcrc : pd.crcOk = true) :
    ∃ t', taggedStep clk session t pd = some t' ∧ From session t' ∧
      ∀ f ∈ t'.flushes, f ∈ t.flushes ∨ Unmixed f := by
  obtain ⟨t', hstep, hinv, hnoted⟩ := taggedStep_spec clk session h.inv hcrc
  refine ⟨t', hstep, ⟨hinv, ?_⟩, ?_⟩
  · intro j x hx
    cases hnoted with
    | same _ _ hsources _ =>
      rw [hsources] at hx
      rcases Option.or_eq_some_iff.mp hx with hx | ⟨-, hx⟩
      · exact h.source j x hx
      · split_ifs at hx
        exact (Option.some.inj hx).symm
    | late _ _ _ hsources _ =>
      exact h.source j x (hsources ▸ hx)
    | drop _ _ hsources _ | flush _ _ _ hsources _ =>
      exact sources_single hsources j x hx
  · intro f hf
    cases hnoted with
    | same _ _ _ hflushes | late _ _ _ _ hflushes | drop _ _ _ hflushes =>
      exact Or.inl (hflushes ▸ hf)
    | flush _ _ _ _ hflushes =>
      rw [hflushes] at hf
      rcases List.mem_append.mp hf with hf | hf
      · exact Or.inl hf
      · exact Or.inr (List.mem_singleton.mp hf ▸ h.unmixed)

/-- A whole session. -/
theorem From.run (clk : Nat → UInt64) {session : Session} (dlv : List PayloadData) {t : TaggedRun}
    (h : From session t) (hcrc : ∀ pd ∈ dlv, pd.crcOk = true) :
    ∃ t', taggedRun clk session t dlv = some t' ∧ From session t' ∧
      ∀ f ∈ t'.flushes, f ∈ t.flushes ∨ Unmixed f := by
  induction dlv generalizing t with
  | nil => exact ⟨t, rfl, h, fun f hf => Or.inl hf⟩
  | cons pd dlv ih =>
    obtain ⟨t₁, hstep, h₁, hflushes₁⟩ := h.step clk (hcrc pd List.mem_cons_self)
    obtain ⟨t', hrun, h', hflushes⟩ := ih h₁ fun q hq => hcrc q (List.mem_cons_of_mem pd hq)
    refine ⟨t', ?_, h', ?_⟩
    · rw [taggedRun, List.foldlM_cons, hstep]
      exact hrun
    · intro f hf
      rcases hflushes f hf with hf | hf
      · exact hflushes₁ f hf
      · exact Or.inr hf

/-! ## The second session, in order -/

/-- The packets that a run of the transmitter writes, in order: those that are not withheld. -/
def sentPackets (blocks : List TxBlock) : List TxPacket :=
  blocks.flatMap fun block => block.packets.filter fun p => p.frame.isSome

/-- The whole of a block: its eight payloads. -/
def wholeBlock (blocks : List TxBlock) (b : Nat) : List UInt8 :=
  (List.range paramDataPacketsPerBlock).flatMap (sentPayload blocks b)

theorem sentPackets_mem {blocks : List TxBlock} {p : TxPacket} (h : p ∈ sentPackets blocks) :
    ∃ (b : Nat) (block : TxBlock), blocks[b]? = some block ∧ p ∈ block.packets := by
  obtain ⟨block, hblock, hp⟩ := List.mem_flatMap.mp h
  obtain ⟨b, hb⟩ := List.mem_iff_getElem?.mp hblock
  exact ⟨b, block, hb, (List.mem_filter.mp hp).1⟩

theorem Sent.seqNr {blocks : List TxBlock} (hblocks : Sent blocks) {b : Nat} {block : TxBlock}
    (hb : blocks[b]? = some block) {p : TxPacket} (hp : p ∈ block.packets) :
    p.seqNr.toNat / 12 = b := by
  obtain ⟨pd, hpd⟩ := exists_delivers p
  rw [← hpd.blockNum]
  exact (CarriesAt.place hblocks ⟨block, p, hb, hp, rfl, hpd⟩).1

/-- The packets are sent block after block. -/
theorem sentPackets_sorted {blocks : List TxBlock} (hblocks : Sent blocks) :
    (sentPackets blocks).Pairwise fun p q => p.seqNr.toNat / 12 ≤ q.seqNr.toNat / 12 := by
  rw [sentPackets, List.pairwise_flatMap]
  constructor
  · intro block hblock
    obtain ⟨b, hb⟩ := List.mem_iff_getElem?.mp hblock
    apply List.pairwise_of_forall_mem_list
    intro p hp q hq
    rw [hblocks.seqNr hb (List.mem_filter.mp hp).1, hblocks.seqNr hb (List.mem_filter.mp hq).1]
  · rw [List.pairwise_iff_getElem]
    intro i j hi hj hij p hp q hq
    rw [hblocks.seqNr (List.getElem?_eq_getElem hi) (List.mem_filter.mp hp).1,
      hblocks.seqNr (List.getElem?_eq_getElem hj) (List.mem_filter.mp hq).1]
    exact hij.le

theorem Sent.exists_data {blocks : List TxBlock} (hblocks : Sent blocks) {b : Nat}
    (hb : b < blocks.length) {di : Nat} (hdi : di < paramDataPacketsPerBlock) :
    ∃ p ∈ blocks[b].packets, p.kind = .data di ∧ p ∈ sentPackets blocks := by
  obtain ⟨p, hp, hkind⟩ := hblocks.exists_packet hb (k := .data di) hdi
  obtain ⟨phdrLen, hframed⟩ := hblocks.framed _ (List.getElem_mem hb)
  refine ⟨p, hp, hkind, List.mem_flatMap.mpr ⟨_, List.getElem_mem hb, List.mem_filter.mpr ⟨hp, ?_⟩⟩⟩
  by_contra hno
  obtain ⟨fi, hfi⟩ := hframed.withheld p hp (by simpa using hno)
  rw [hkind] at hfi
  exact absurd hfi (by simp)

/-- The first packets of a session, handed over in order. -/
structure InOrder (blocks : List TxBlock) (dlv : List PayloadData) : Prop where
  packets : ∃ n, List.Forall₂ Delivers dlv ((sentPackets blocks).take n)

theorem exists_sent {dlv : List PayloadData} {ps : List TxPacket}
    (h : List.Forall₂ Delivers dlv ps) {pd : PayloadData} (hpd : pd ∈ dlv) :
    ∃ p ∈ ps, Delivers pd p := by
  obtain ⟨hlen, hget⟩ := List.forall₂_iff_get.mp h
  obtain ⟨i, hi, rfl⟩ := List.getElem_of_mem hpd
  exact ⟨_, List.getElem_mem (hlen ▸ hi), hget i hi (hlen ▸ hi)⟩

theorem exists_delivered {dlv : List PayloadData} {ps : List TxPacket}
    (h : List.Forall₂ Delivers dlv ps) {p : TxPacket} (hp : p ∈ ps) :
    ∃ pd ∈ dlv, Delivers pd p := by
  obtain ⟨hlen, hget⟩ := List.forall₂_iff_get.mp h
  obtain ⟨i, hi, rfl⟩ := List.getElem_of_mem hp
  exact ⟨_, List.getElem_mem (hlen ▸ hi), hget i (hlen ▸ hi) hi⟩

theorem InOrder.carries {blocks : List TxBlock} {dlv : List PayloadData}
    (h : InOrder blocks dlv) : ∀ pd ∈ dlv, Carries blocks pd := by
  obtain ⟨n, hall⟩ := h.packets
  intro pd hpd
  obtain ⟨p, hsent, hdel⟩ := exists_sent hall hpd
  obtain ⟨b, block, hb, hp⟩ := sentPackets_mem (List.mem_of_mem_take hsent)
  exact ⟨b, p.kind, block, p, hb, hp, rfl, hdel⟩

/-- Block numbers never fall in such a delivery. -/
theorem InOrder.sorted {blocks : List TxBlock} (hblocks : Sent blocks) {dlv : List PayloadData}
    (h : InOrder blocks dlv) : dlv.Pairwise fun p q => p.blockNum ≤ q.blockNum := by
  obtain ⟨n, hall⟩ := h.packets
  have hsorted := (sentPackets_sorted hblocks).sublist (List.take_sublist n _)
  rw [List.pairwise_iff_getElem] at hsorted ⊢
  intro i j hi hj hij
  obtain ⟨hlen, hget⟩ := List.forall₂_iff_get.mp hall
  have hdi := hget i hi (hlen ▸ hi)
  have hdj := hget j hj (hlen ▸ hj)
  have := hsorted i j (hlen ▸ hi) (hlen ▸ hj) hij
  simp only [List.get_eq_getElem] at hdi hdj
  rw [hdi.blockNum, hdj.blockNum]
  exact this

theorem InOrder.inWindow {blocks : List TxBlock} (hblocks : Sent blocks) {dlv : List PayloadData}
    (h : InOrder blocks dlv) : InWindow dlv := by
  intro pre pd post he
  by_cases hnil : pre = []
  · subst hnil
    exact Nat.zero_le _
  · obtain ⟨q, hq, hhigh⟩ := exists_highest hnil
    have hsorted := h.sorted hblocks
    rw [he, List.pairwise_append] at hsorted
    have := hsorted.2.2 q hq pd List.mem_cons_self
    omega

theorem received_of_sorted {dlv : List PayloadData}
    (hsorted : dlv.Pairwise fun p q => p.blockNum ≤ q.blockNum) {pd : PayloadData}
    (hpd : pd ∈ dlv) : received dlv pd.blockNum pd.packetNum = true := by
  obtain ⟨pre, post, rfl⟩ := List.append_of_mem hpd
  rw [List.pairwise_append] at hsorted
  have hpre : ∀ q ∈ pre, decide (q.blockNum ≤ pd.blockNum) = true := by
    intro q hq
    exact decide_eq_true (hsorted.2.2 q hq pd List.mem_cons_self)
  rw [received, List.takeWhile_append_of_pos hpre, List.takeWhile_cons, List.any_append,
    decide_eq_true (le_refl pd.blockNum)]
  simp

/-- All data packets of a block that is past are received. -/
theorem InOrder.received {blocks : List TxBlock} (hblocks : Sent blocks) {dlv : List PayloadData}
    (h : InOrder blocks dlv) {b : Nat} (hb : b < highest dlv) {di : Nat}
    (hdi : di < paramDataPacketsPerBlock) : Rhex.received dlv b (dataSlot di) = true := by
  have hne : dlv ≠ [] := by
    rintro rfl
    exact absurd hb (Nat.not_lt_zero b)
  obtain ⟨top, htop, hhigh⟩ := exists_highest hne
  have hblt : b < blocks.length := by
    have := (h.carries top htop).blockNum_lt hblocks
    omega
  obtain ⟨p, hp, hkind, hsent⟩ := hblocks.exists_data hblt hdi
  have hblock := List.getElem?_eq_getElem hblt
  have hseq := hblocks.seqNr hblock hp
  obtain ⟨n, hall⟩ := h.packets
  -- The packet is before one of a later block, so it is among those handed over.
  have htake : p ∈ (sentPackets blocks).take n := by
    by_contra hno
    have hdrop : p ∈ (sentPackets blocks).drop n := by
      rw [← List.take_append_drop n (sentPackets blocks)] at hsent
      exact (List.mem_append.mp hsent).resolve_left hno
    have hsorted := sentPackets_sorted hblocks
    rw [← List.take_append_drop n (sentPackets blocks), List.pairwise_append] at hsorted
    obtain ⟨q, hq, hdel⟩ := exists_sent hall htop
    have := hsorted.2.2 q hq p hdrop
    rw [hdel.blockNum] at hhigh
    omega
  obtain ⟨pd, hpd, hdel⟩ := exists_delivered hall htake
  have hplace := CarriesAt.place hblocks (k := p.kind) ⟨_, p, hblock, hp, rfl, hdel⟩
  have := received_of_sorted (h.sorted hblocks) hpd
  rwa [hplace.1, hplace.2, hkind] at this

theorem InOrder.expectedOutput {blocks : List TxBlock} (hblocks : Sent blocks)
    {dlv : List PayloadData} (h : InOrder blocks dlv) :
    Rhex.expectedOutput blocks dlv = (List.range (highest dlv)).flatMap (wholeBlock blocks) := by
  refine List.flatMap_congr fun b hb => List.flatMap_congr ?_
  intro di hdi
  rw [h.received hblocks (List.mem_range.mp hb) (List.mem_range.mp hdi)]
  simp

/-- The first packet of a session is of block 0. -/
theorem InOrder.first {blocks : List TxBlock} (hblocks : Sent blocks) {pd : PayloadData}
    {rest : List PayloadData} (h : InOrder blocks (pd :: rest)) : pd.blockNum = 0 := by
  obtain ⟨n, hall⟩ := h.packets
  obtain ⟨q, qs, hpd, -, htake⟩ := List.forall₂_cons_left_iff.mp hall
  have hsent : sentPackets blocks = q :: (qs ++ (sentPackets blocks).drop n) := by
    rw [← List.cons_append, ← htake, List.take_append_drop]
  have hlen : 0 < blocks.length := by
    have := (h.carries pd List.mem_cons_self).blockNum_lt hblocks
    omega
  obtain ⟨p, hp, -, hmem⟩ := hblocks.exists_data hlen (show 0 < 8 by decide)
  have hseq := hblocks.seqNr (List.getElem?_eq_getElem hlen) hp
  have hsorted := sentPackets_sorted hblocks
  rw [hsent] at hmem hsorted
  rw [hpd.blockNum]
  rcases List.mem_cons.mp hmem with rfl | hmem
  · exact hseq
  · have := List.rel_of_pairwise_cons hsorted hmem
    omega

/-! ## The restart -/

/-- What was put out before a run stands before what the run puts out. -/
theorem rxRun_after {clk : Nat → UInt64} (dlv : List PayloadData) {run r : RxRun}
    (h : rxRun clk run dlv = some r) (out : List UInt8) (flushed : List Int) :
    rxRun clk { run with out := out ++ run.out, flushed := flushed ++ run.flushed } dlv =
      some { r with out := out ++ r.out, flushed := flushed ++ r.flushed } := by
  induction dlv generalizing run with
  | nil =>
    obtain rfl := Option.some.inj h
    rfl
  | cons pd dlv ih =>
    rw [rxRun, List.foldlM_cons] at h ⊢
    cases hr : processPayload clk run.state pd ⟨0, run.data⟩ with
    | none => simp [rxRunStep, hr] at h
    | some step =>
      simp only [rxRunStep, hr] at h ⊢
      have := ih h
      simp only [← List.append_assoc] at this
      exact this

/-- The receiver before the first session. -/
def TaggedRun.start (rx : RxState) (data : Buf) : TaggedRun :=
  ⟨⟨rx, data, [], []⟩, fun _ => .first, []⟩

theorem TaggedRun.start_from {rx : RxState} (hrx : rx.Fresh) (data : Buf) (session : Session) :
    From session (TaggedRun.start rx data) := by
  refine ⟨hrx.inv, ?_⟩
  intro j x hx
  rw [TaggedRun.sources, if_neg] at hx
  · exact absurd hx (by simp)
  · rintro ⟨hj, hvalid⟩
    rw [TaggedRun.start, (hrx.empty j hj).1] at hvalid
    exact absurd hvalid (by decide)

/-- A session whose first packet drops what was collected: all later packets in the buffer are its
own. -/
theorem taggedRun_restart (clk : Nat → UInt64) (session : Session) {t : TaggedRun}
    (ht : RxInv t.run.state) {pd : PayloadData} {rest : List PayloadData}
    (hcrc : ∀ q ∈ pd :: rest, q.crcOk = true)
    (hdrop : t.run.state.maxBlockNum = -1 ∨
      (pd.blockNum : Int) + 128 < t.run.state.maxBlockNum) :
    ∃ t', taggedRun clk session t (pd :: rest) = some t' ∧
      ∀ f ∈ t'.flushes, f ∈ t.flushes ∨ Unmixed f := by
  obtain ⟨t₁, hstep, hinv, hnoted⟩ := taggedStep_spec clk session ht (hcrc pd List.mem_cons_self)
  have hfrom : From session t₁ ∧ t₁.flushes = t.flushes := by
    cases hnoted with
    | same hblock _ _ _ => omega
    | late hlt hge _ _ _ => omega
    | flush hnew hopen _ _ _ => omega
    | drop _ _ hsources hflushes => exact ⟨⟨hinv, sources_single hsources⟩, hflushes⟩
  obtain ⟨t', hrest, -, hflushes⟩ := hfrom.1.run clk rest fun q hq =>
    hcrc q (List.mem_cons_of_mem pd hq)
  refine ⟨t', ?_, hfrom.2 ▸ hflushes⟩
  rw [taggedRun, List.foldlM_cons, hstep]
  exact hrest

/-- **A restarted transmitter.** Whatever the receiver got in the first session: when block 0 is
more than 128 blocks behind the newest one, or nothing was received, and the packets of the second
session are handed over in order, then no block is flushed that both sessions went into, and the
output of the second session is its blocks in full, up to the last one seen. -/
theorem restart_output (env : TxEnv) (s : TxState) (hs : s.Fresh) (calls : List (Buf × UInt16))
    (clk : Nat → UInt64) (rx : RxState) (hrx : rx.Fresh) (data : Buf) (dlv₁ : List PayloadData)
    (hcrc : ∀ pd ∈ dlv₁, pd.crcOk = true) :
    ∃ s' blocks t₁, wfbTxRun env s calls = some (s', blocks) ∧
      taggedRun clk .first (TaggedRun.start rx data) dlv₁ = some t₁ ∧
      (blocks.length < 357913941 →
        (t₁.run.state.maxBlockNum = -1 ∨ 128 < t₁.run.state.maxBlockNum) →
        ∀ dlv₂, InOrder blocks dlv₂ → ∃ t₂, taggedRun clk .second t₁ dlv₂ = some t₂ ∧
          (∀ f ∈ t₂.flushes, Unmixed f) ∧
          t₂.run.out =
            t₁.run.out ++ (List.range (highest dlv₂)).flatMap (wholeBlock blocks)) := by
  obtain ⟨s', blocks, hrun, -, hsent⟩ := sent_of_run env hs calls
  obtain ⟨t₁, hrun₁, hfrom₁, hflushes₁⟩ :=
    (TaggedRun.start_from hrx data .first).run clk dlv₁ hcrc
  have hunmixed₁ : ∀ f ∈ t₁.flushes, Unmixed f := by
    intro f hf
    exact (hflushes₁ f hf).resolve_left List.not_mem_nil
  refine ⟨s', blocks, t₁, hrun, hrun₁, ?_⟩
  intro hlen hmax dlv₂ horder
  have hblocks := (hsent hlen).1
  cases dlv₂ with
  | nil => exact ⟨t₁, rfl, hunmixed₁, (List.append_nil _).symm⟩
  | cons pd rest =>
    have hzero := horder.first hblocks
    have hcarries := horder.carries
    have hcrc₂ : ∀ q ∈ pd :: rest, q.crcOk = true := by
      intro q hq
      obtain ⟨b, k, hat⟩ := hcarries q hq
      obtain ⟨_, _, _, _, _, hdel⟩ := hat.packet
      exact hdel.crcOk
    have hdrop : t₁.run.state.maxBlockNum = -1 ∨
        (pd.blockNum : Int) + 128 < t₁.run.state.maxBlockNum := by
      rw [hzero]
      simpa using hmax
    -- The output, as if the receiver had put out nothing before.
    obtain ⟨run₁, hfirst, hcollected⟩ := Collected.first clk hblocks
      ⟨t₁.run.state, t₁.run.data, [], []⟩ hfrom₁.inv rfl rfl
      (hcarries pd List.mem_cons_self) hdrop
    obtain ⟨run₂, hrun₂, hdone⟩ :=
      hcollected.run clk hblocks hfirst rest hcarries (horder.inWindow hblocks)
    have hafter := rxRun_after _ hrun₂ t₁.run.out t₁.run.flushed
    simp only [List.append_nil] at hafter
    obtain ⟨t₂, ht₂, hrun₂'⟩ := taggedRun_run .second _ hafter
    -- The sources of the same run.
    obtain ⟨t₂', ht₂', hflushes⟩ := taggedRun_restart clk .second hfrom₁.inv hcrc₂ hdrop
    obtain rfl : t₂' = t₂ := Option.some.inj (ht₂'.symm.trans ht₂)
    refine ⟨t₂', ht₂, ?_, ?_⟩
    · intro f hf
      exact (hflushes f hf).elim (hunmixed₁ f) id
    · rw [hrun₂', hdone.out, horder.expectedOutput hblocks]

/-- A delivery of everything exists. -/
theorem exists_inOrder (blocks : List TxBlock) :
    ∃ dlv, List.Forall₂ Delivers dlv (sentPackets blocks) ∧ InOrder blocks dlv := by
  have hall : ∀ ps : List TxPacket, ∃ dlv, List.Forall₂ Delivers dlv ps := by
    intro ps
    induction ps with
    | nil => exact ⟨[], List.Forall₂.nil⟩
    | cons p ps ih =>
      obtain ⟨dlv, hdlv⟩ := ih
      obtain ⟨pd, hpd⟩ := exists_delivers p
      exact ⟨pd :: dlv, List.Forall₂.cons hpd hdlv⟩
  obtain ⟨dlv, hdlv⟩ := hall (sentPackets blocks)
  exact ⟨dlv, hdlv, ⟨(sentPackets blocks).length, by rwa [List.take_length]⟩⟩

/-- The first packet a fresh receiver gets is all that is in its buffer. -/
theorem taggedRun_first (clk : Nat → UInt64) (session : Session) {rx : RxState} (hrx : rx.Fresh)
    (data : Buf) (pd : PayloadData) (hcrc : pd.crcOk = true) :
    ∃ t, taggedRun clk session (TaggedRun.start rx data) [pd] = some t ∧ RxInv t.run.state ∧
      t.run.state.maxBlockNum = pd.blockNum ∧ t.flushes = [] ∧
      t.sources = fun i => if i = pd.packetNum then some session else none := by
  obtain ⟨t, hstep, hinv, hnoted⟩ :=
    taggedStep_spec clk session (TaggedRun.start_from hrx data session).inv hcrc
  have hmax : (TaggedRun.start rx data).run.state.maxBlockNum = -1 := hrx.maxBlockNum
  refine ⟨t, by rw [taggedRun, List.foldlM_cons, hstep]; rfl, hinv, ?_⟩
  cases hnoted with
  | same hblock _ _ _ => omega
  | late hlt _ _ _ _ => omega
  | drop _ hmax hsources hflushes => exact ⟨hmax, hflushes, hsources⟩
  | flush _ hopen _ _ _ => exact absurd hmax hopen

/-- A restart after block 129 of the first session. -/
theorem restart_output_jump : ∃ s' blocks dlv₂ t₁ t₂,
    wfbTxRun ⟨fun _ => 0, fun _ _ _ => 0⟩ (wfbStreamInit [] fun _ _ => 0)
      (List.replicate 16 (fun _ => 7, 20)) = some (s', blocks) ∧ blocks.length = 2 ∧
    taggedRun (fun _ => 0) .first (TaggedRun.start (wfbRxStreamInit fun _ _ => 0) fun _ => 0)
      [⟨ofList (le32 1548), 4, true⟩] = some t₁ ∧ t₁.run.state.maxBlockNum = 129 ∧
    List.Forall₂ Delivers dlv₂ (sentPackets blocks) ∧
    taggedRun (fun _ => 0) .second t₁ dlv₂ = some t₂ ∧ (∀ f ∈ t₂.flushes, Unmixed f) ∧
    t₂.run.out = t₁.run.out ++ (List.range (highest dlv₂)).flatMap (wholeBlock blocks) := by
  obtain ⟨s', blocks, hrun, hlen, hsent⟩ := sent_small (fun _ => 7) (show 16 < 2 ^ 31 by decide)
  obtain ⟨s₁, blocks₁, t₁, hrun₁, ht₁, h⟩ := restart_output ⟨fun _ => 0, fun _ _ _ => 0⟩
    (wfbStreamInit [] fun _ _ => 0) (wfbStreamInit_fresh _ _) (List.replicate 16 (fun _ => 7, 20))
    (fun _ => 0) (wfbRxStreamInit fun _ _ => 0) (wfbRxStreamInit_fresh _) (fun _ => 0)
    [⟨ofList (le32 1548), 4, true⟩] (by simp)
  obtain ⟨-, rfl⟩ := Prod.mk.inj (Option.some.inj (hrun₁.symm.trans hrun))
  obtain ⟨t, ht, -, hmax, -, -⟩ := taggedRun_first (fun _ => 0) .first
    (wfbRxStreamInit_fresh fun _ _ => 0) (fun _ => 0) ⟨ofList (le32 1548), 4, true⟩ rfl
  obtain rfl := Option.some.inj (ht.symm.trans ht₁)
  have hmax' : t.run.state.maxBlockNum = 129 := hmax.trans (by decide)
  obtain ⟨dlv₂, hdlv, horder⟩ := exists_inOrder blocks₁
  obtain ⟨t₂, ht₂, hunmixed, hout⟩ := h (by omega) (Or.inr (by omega)) dlv₂ horder
  exact ⟨s', blocks₁, dlv₂, t, t₂, hrun, hlen, ht, hmax', hdlv, ht₂, hunmixed, hout⟩

/-! ## A restart within the window -/

/-- What is flushed stays flushed. -/
theorem taggedRun_flushes (clk : Nat → UInt64) (session : Session) (dlv : List PayloadData)
    {t : TaggedRun} (ht : RxInv t.run.state) (hcrc : ∀ pd ∈ dlv, pd.crcOk = true) :
    ∃ t', taggedRun clk session t dlv = some t' ∧ t.flushes ⊆ t'.flushes := by
  induction dlv generalizing t with
  | nil => exact ⟨t, rfl, List.Subset.refl _⟩
  | cons pd dlv ih =>
    obtain ⟨t₁, hstep, hinv, hnoted⟩ := taggedStep_spec clk session ht (hcrc pd List.mem_cons_self)
    obtain ⟨t', hrun, hsub⟩ := ih hinv fun q hq => hcrc q (List.mem_cons_of_mem pd hq)
    refine ⟨t', by rw [taggedRun, List.foldlM_cons, hstep]; exact hrun, List.Subset.trans ?_ hsub⟩
    cases hnoted with
    | same _ _ _ hflushes | late _ _ _ _ hflushes | drop _ _ _ hflushes =>
      exact hflushes ▸ List.Subset.refl _
    | flush _ _ _ _ hflushes => exact hflushes ▸ List.subset_append_left _ _

/-- The packets of the current block fill the slots that are free, by induction on how many. -/
theorem taggedRun_same (clk : Nat → UInt64) (session : Session) (dlv : List PayloadData)
    {t : TaggedRun} (ht : RxInv t.run.state) (hcrc : ∀ pd ∈ dlv, pd.crcOk = true)
    (hblock : ∀ pd ∈ dlv, t.run.state.maxBlockNum = pd.blockNum) :
    ∃ t', taggedRun clk session t dlv = some t' ∧ RxInv t'.run.state ∧
      t'.run.state.maxBlockNum = t.run.state.maxBlockNum ∧
      t'.sources = fun i =>
        (t.sources i).or (if i ∈ dlv.map PayloadData.packetNum then some session else none) := by
  induction dlv generalizing t with
  | nil => exact ⟨t, rfl, ht, rfl, by simp⟩
  | cons pd dlv ih =>
    have hpd := hblock pd List.mem_cons_self
    obtain ⟨t₁, hstep, hinv, hnoted⟩ := taggedStep_spec clk session ht (hcrc pd List.mem_cons_self)
    cases hnoted with
    | same _ hmax hsources _ =>
      obtain ⟨t', hrun, hinv', hmax', hsources'⟩ :=
        ih hinv (fun q hq => hcrc q (List.mem_cons_of_mem pd hq))
          fun q hq => hmax.trans (hblock q (List.mem_cons_of_mem pd hq))
      refine ⟨t', by rw [taggedRun, List.foldlM_cons, hstep]; exact hrun, hinv',
        hmax'.trans hmax, ?_⟩
      funext i
      rw [hsources', hsources, List.map_cons]
      by_cases hi : i = pd.packetNum
      · simp only [Option.or_assoc, hi, List.mem_cons, true_or, if_true, Option.some_or]
      · simp only [hi, List.mem_cons, false_or, if_false, Option.or_none]
    | late hlt _ _ _ _ => omega
    | drop hdrop _ _ _ => omega
    | flush hnew _ _ _ _ => omega

/-- **A block that both sessions go into.** When the second session goes on in the block where
the first one stopped, its packets fill the free slots, and the first packet of a later block
flushes what has come together. -/
theorem restart_same_block (clk : Nat → UInt64) {t : TaggedRun} (ht : RxInv t.run.state)
    (same rest : List PayloadData) (pd : PayloadData)
    (hcrc : ∀ q ∈ same ++ pd :: rest, q.crcOk = true)
    (hsame : ∀ q ∈ same, t.run.state.maxBlockNum = q.blockNum)
    (hopen : t.run.state.maxBlockNum ≠ -1) (hnew : t.run.state.maxBlockNum < pd.blockNum) :
    ∃ t', taggedRun clk .second t (same ++ pd :: rest) = some t' ∧
      (fun i => (t.sources i).or
        (if i ∈ same.map PayloadData.packetNum then some .second else none)) ∈ t'.flushes := by
  obtain ⟨t₁, hrun₁, hinv₁, hmax₁, hsources₁⟩ := taggedRun_same clk .second same ht
    (fun q hq => hcrc q (List.mem_append_left _ hq)) hsame
  obtain ⟨t₂, hstep, hinv₂, hnoted⟩ :=
    taggedStep_spec clk .second hinv₁ (hcrc pd (List.mem_append_right _ List.mem_cons_self))
  obtain ⟨t₃, hrun₃, hsub⟩ := taggedRun_flushes clk .second rest hinv₂ fun q hq =>
    hcrc q (List.mem_append_right _ (List.mem_cons_of_mem pd hq))
  have hflushed : t₁.sources ∈ t₂.flushes := by
    cases hnoted with
    | same hblock _ _ _ => omega
    | late hlt _ _ _ _ => omega
    | drop hdrop _ _ _ => omega
    | flush _ _ _ _ hflushes => simp [hflushes]
  refine ⟨t₃, ?_, hsources₁ ▸ hsub hflushed⟩
  rw [taggedRun] at hrun₁ hrun₃ ⊢
  rw [List.foldlM_append, hrun₁, Option.bind_eq_bind, Option.bind_some, List.foldlM_cons, hstep]
  exact hrun₃

/-- In such a delivery the packets of block 0 come first. -/
theorem InOrder.split {blocks : List TxBlock} (hblocks : Sent blocks) {dlv : List PayloadData}
    (h : InOrder blocks dlv) {last : PayloadData} (hlast : last ∈ dlv) (hne : last.blockNum ≠ 0) :
    ∃ same q rest, dlv = same ++ q :: rest ∧ (∀ x ∈ same, x.blockNum = 0) ∧ q.blockNum ≠ 0 ∧
      ∀ x ∈ dlv, x.blockNum = 0 → x ∈ same := by
  obtain ⟨same, hsame⟩ : ∃ same, same = dlv.takeWhile fun q => decide (q.blockNum = 0) := ⟨_, rfl⟩
  have hzero : ∀ x ∈ same, x.blockNum = 0 := by
    intro x hx
    have := List.mem_takeWhile_imp (hsame ▸ hx)
    simpa using this
  have hhead := List.head?_dropWhile_not (fun q : PayloadData => decide (q.blockNum = 0)) dlv
  have hsplit : dlv = same ++ dlv.dropWhile fun q => decide (q.blockNum = 0) := by
    rw [hsame, List.takeWhile_append_dropWhile]
  cases hrest : dlv.dropWhile fun q => decide (q.blockNum = 0) with
  | nil =>
    rw [hrest, List.append_nil] at hsplit
    exact absurd (hzero last (hsplit ▸ hlast)) hne
  | cons q rest =>
    rw [hrest] at hsplit hhead
    have hq : q.blockNum ≠ 0 := by simpa using hhead
    refine ⟨same, q, rest, hsplit, hzero, hq, ?_⟩
    intro x hx hx0
    have hsorted := h.sorted hblocks
    rw [hsplit] at hx hsorted
    have hle := List.pairwise_cons.mp (List.pairwise_append.mp hsorted).2.1
    rcases List.mem_append.mp hx with hx | hx
    · exact hx
    · rcases List.mem_cons.mp hx with rfl | hx
      · exact absurd hx0 hq
      · have := hle.1 x hx
        omega

/-- A restart after the first packet of block 0. -/
theorem restart_mixed : ∃ s₁ blocks₁ s₂ blocks₂ dlv₁ dlv₂ t₁ t₂,
    wfbTxRun ⟨fun _ => 0, fun _ _ _ => 0⟩ (wfbStreamInit [] fun _ _ => 0)
      (List.replicate 8 (fun _ => 7, 20)) = some (s₁, blocks₁) ∧
    wfbTxRun ⟨fun _ => 0, fun _ _ _ => 0⟩ (wfbStreamInit [] fun _ _ => 0)
      (List.replicate 16 (fun _ => 9, 20)) = some (s₂, blocks₂) ∧
    (∀ pd ∈ dlv₁, Carries blocks₁ pd) ∧ List.Forall₂ Delivers dlv₂ (sentPackets blocks₂) ∧
    taggedRun (fun _ => 0) .first (TaggedRun.start (wfbRxStreamInit fun _ _ => 0) fun _ => 0)
      dlv₁ = some t₁ ∧
    taggedRun (fun _ => 0) .second t₁ dlv₂ = some t₂ ∧ ∃ f ∈ t₂.flushes, ¬Unmixed f := by
  obtain ⟨s₁, blocks₁, hrun₁, hlen₁, hsent₁⟩ := sent_small (fun _ => 7) (show 8 < 2 ^ 31 by decide)
  obtain ⟨s₂, blocks₂, hrun₂, hlen₂, hsent₂⟩ := sent_small (fun _ => 9) (show 16 < 2 ^ 31 by decide)
  -- The first session: packet 0 of block 0.
  have hlt₁ : 0 < blocks₁.length := by omega
  obtain ⟨p, hp, hkind⟩ := hsent₁.exists_packet hlt₁ (k := .data 0) (show 0 < 8 by decide)
  obtain ⟨pd, hpd⟩ := exists_delivers p
  have hat : CarriesAt blocks₁ pd 0 p.kind :=
    ⟨_, p, List.getElem?_eq_getElem hlt₁, hp, rfl, hpd⟩
  obtain ⟨hzero, hslot⟩ := hat.place hsent₁
  obtain ⟨t₁, ht₁, hinv₁, hmax₁, hnone, hsources₁⟩ := taggedRun_first (fun _ => 0) .first
    (wfbRxStreamInit_fresh fun _ _ => 0) (fun _ => 0) pd hpd.crcOk
  -- The second session: all packets, those of block 0 before one of block 1.
  obtain ⟨dlv₂, hdlv, horder⟩ := exists_inOrder blocks₂
  obtain ⟨p₁, hp₁, hkind₁, hmem₁⟩ :=
    hsent₂.exists_data (show 0 < blocks₂.length by omega) (show 1 < 8 by decide)
  obtain ⟨p₂, hp₂, -, hmem₂⟩ :=
    hsent₂.exists_data (show 1 < blocks₂.length by omega) (show 0 < 8 by decide)
  obtain ⟨q₁, hq₁, hdel₁⟩ := exists_delivered hdlv hmem₁
  obtain ⟨q₂, hq₂, hdel₂⟩ := exists_delivered hdlv hmem₂
  obtain ⟨hq₁zero, hq₁slot⟩ := CarriesAt.place hsent₂ (k := p₁.kind)
    ⟨_, p₁, List.getElem?_eq_getElem (show 0 < blocks₂.length by omega), hp₁, rfl, hdel₁⟩
  obtain ⟨hq₂one, -⟩ := CarriesAt.place hsent₂ (k := p₂.kind)
    ⟨_, p₂, List.getElem?_eq_getElem (show 1 < blocks₂.length by omega), hp₂, rfl, hdel₂⟩
  obtain ⟨same, q, rest, hsplit, hsame, hq, hzeros⟩ := horder.split hsent₂ hq₂ (by omega)
  have hfirst := hzeros q₁ hq₁ hq₁zero
  obtain ⟨t₂, ht₂, hflush⟩ := restart_same_block (fun _ => 0) hinv₁ same rest q
    (fun x hx => by
      obtain ⟨_, -, hdel⟩ := exists_sent hdlv (hsplit ▸ hx)
      exact hdel.crcOk)
    (fun x hx => by rw [hmax₁, hzero, hsame x hx]) (by omega) (by omega)
  refine ⟨s₁, blocks₁, s₂, blocks₂, [pd], dlv₂, t₁, t₂, hrun₁, hrun₂, ?_, hdlv, ht₁, hsplit ▸ ht₂,
    _, hflush, fun hunmixed => ?_⟩
  · intro x hx
    rw [List.mem_singleton.mp hx]
    exact ⟨0, p.kind, hat⟩
  · have hslot₁ : pd.packetNum = 0 := by rw [hslot, hkind]; rfl
    have hslot₂ : q₁.packetNum = 2 := by rw [hq₁slot, hkind₁]; rfl
    have hmem : 2 ∈ same.map PayloadData.packetNum := hslot₂ ▸ List.mem_map_of_mem hfirst
    have := hunmixed 0 2 .first .second (by simp [hsources₁, hslot₁])
      (by simp only [hsources₁, hslot₁, hmem, if_true]; rfl)
    exact absurd this (by decide)

end Rhex
