import Mathlib
import Rhex.Capture
import Rhex.Lib.Run
import Rhex.Lib.Serial
import Rhex.Lib.Window

/-!
# The telemetry receiver (`rhex_telemetry_rx.c`)

`telemetry_rx_main` forwards the frames it receives to a UDP socket. `process_packet` drops a frame
whose number is among the last 100 forwarded, and one whose number is in the upper half-range.

* `processPacket`, `telemetryMain` — what it does with a frame, and in one cycle.
* `telemetry_no_duplicate` — a number is not forwarded twice within 100 frames.
* `telemetry_fresh` — when every frame that is new is forwarded.
-/

namespace Rhex

open Memory Serial

/-! ## State -/

/-- `BUF_SZ`. -/
@[simp] abbrev bufSz : Nat := 100

/-- `buffer_t`. -/
structure BufferEntry where
  seq : UInt32
  len : UInt16
  filled : Bool
  payload : Buf

/-- `rx_status_telemetry`, the fields that `process_packet` writes. -/
structure TelemetryStatus where
  currentSignalDbm : Nat → Int
  receivedPacketCnt : Nat → UInt32
  lastUpdate : UInt64

/-- The static variables of the file. -/
structure TelemetryState where
  buffer : Nat → BufferEntry
  bufPos : Nat
  lastseq : UInt32
  status : TelemetryStatus

/-- The state in which the loop of `telemetry_rx_main` starts: `telemetry_rx_init` and the start of
`telemetry_rx_main` have reset the status and the buffer. -/
def TelemetryState.init : TelemetryState where
  buffer := fun _ => ⟨0, 0, false, fun _ => 0⟩
  bufPos := bufSz - 2
  lastseq := 0
  status := ⟨fun _ => -127, fun _ => 0, 0⟩

/-! ## One frame -/

/-- `header->seqnumber`. -/
def headerSeqnumber (data : Buf) : UInt32 := read32 data 0

/-- `header->length`. -/
def headerLength (data : Buf) : UInt16 := read16 data 4

/-- `header->data`, of the length given in the header. -/
def headerData (data : Buf) : List UInt8 := slice data 6 (headerLength data).toNat

/-- What becomes of a frame. -/
inductive Verdict where
  /-- It is a duplicate, or old. -/
  | dropped
  /-- `sendto` failed. -/
  | failed
  | forwarded (datagram : List UInt8)
deriving DecidableEq

def countFrame (status : TelemetryStatus) (rxData : RxPacket) (now : UInt64) : TelemetryStatus where
  currentSignalDbm :=
    if rxData.dbm > -127 then Function.update status.currentSignalDbm rxData.adapter rxData.dbm
    else status.currentSignalDbm
  receivedPacketCnt :=
    Function.update status.receivedPacketCnt rxData.adapter
      (status.receivedPacketCnt rxData.adapter + 1)
  lastUpdate := now

/-- `already_received`. -/
def alreadyReceived (s : TelemetryState) (seqnumber : UInt32) : Bool :=
  (List.range bufSz).any fun i => decide ((s.buffer i).seq = seqnumber)

/-- The last part of `process_packet`: the frame is copied and sent, and remembered if that went
well. `none` is a copy that leaves the entry. -/
def forwardFrame (s : TelemetryState) (data : Buf) (sendtoOk : Bool) :
    Option (TelemetryState × Verdict) :=
  if (headerLength data).toNat > 400 then none
  else
    let entry := s.buffer s.bufPos
    let entry := { entry with payload := memcpy entry.payload 0 (headerData data) }
    if sendtoOk then
      let entry := { entry with
        len := headerLength data
        seq := headerSeqnumber data
        filled := true }
      some ({ s with
          buffer := Function.update s.buffer s.bufPos entry
          bufPos := if s.bufPos + 1 ≥ bufSz then 0 else s.bufPos + 1 },
        .forwarded (headerData data))
    else some ({ s with buffer := Function.update s.buffer s.bufPos entry }, .failed)

/-- `process_packet`. -/
def processPacket (s : TelemetryState) (rxData : RxPacket) (now : UInt64) (sendtoOk : Bool) :
    Option (TelemetryState × Verdict) :=
  let s := { s with status := countFrame s.status rxData now }
  if alreadyReceived s (headerSeqnumber rxData.data) then some (s, .dropped)
  else if (headerSeqnumber rxData.data - s.lastseq).toNat > 2147483647 then some (s, .dropped)
  else forwardFrame s rxData.data sendtoOk

/-- One cycle of `telemetry_rx_main`, after `wfb_rx_packet` has returned `r`. `none` is the end of
the loop. -/
def telemetryMain (s : TelemetryState) (r : Int) (rxData : RxPacket) (now : UInt64)
    (sendtoOk : Bool) : Option (TelemetryState × Verdict) :=
  if r < 0 then none
  else if r > 0 then processPacket s rxData now sendtoOk
  else some (s, .dropped)

/-- A frame whose length fits an entry is handled, and what is forwarded is its data. -/
theorem processPacket_datagram (s : TelemetryState) {rxData : RxPacket} (now : UInt64)
    (sendtoOk : Bool) (hlen : (headerLength rxData.data).toNat ≤ 400) :
    ∃ r, processPacket s rxData now sendtoOk = some r ∧
      ∀ datagram, r.2 = .forwarded datagram → datagram = headerData rxData.data := by
  have hforward : ∀ s, ∃ r, forwardFrame s rxData.data sendtoOk = some r ∧
      ∀ datagram, r.2 = .forwarded datagram → datagram = headerData rxData.data := by
    intro s
    rw [forwardFrame, if_neg (by omega)]
    cases sendtoOk with
    | true => exact ⟨_, rfl, fun _ h => (Verdict.forwarded.inj h).symm⟩
    | false => exact ⟨_, rfl, fun _ h => absurd h (by simp)⟩
  unfold processPacket
  dsimp only
  split_ifs
  · exact ⟨_, rfl, fun _ h => absurd h (by simp)⟩
  · exact ⟨_, rfl, fun _ h => absurd h (by simp)⟩
  · exact hforward _

/-! ## The window -/

/-- The numbers in the buffer are the last 100 of `recent`, and `lastseq` is 0. -/
structure TelemetryInv (s : TelemetryState) (recent : List UInt32) : Prop where
  window : Window.Holds bufSz (fun i => (s.buffer i).seq) s.bufPos recent
  lastseq : s.lastseq = 0

/-- The frame passes both filters of `process_packet`. -/
def Passes (recent : List UInt32) (seqnumber : UInt32) : Prop :=
  seqnumber ∉ recent.take bufSz ∧ seqnumber.toNat ≤ 2147483647

instance (recent : List UInt32) (seqnumber : UInt32) : Decidable (Passes recent seqnumber) :=
  inferInstanceAs (Decidable (_ ∧ _))

theorem TelemetryInv.init : TelemetryInv .init (List.replicate bufSz 0) :=
  ⟨Window.Holds.init (show bufSz - 2 < bufSz by decide) 0, rfl⟩

theorem seqs_update (buffer : Nat → BufferEntry) (pos : Nat) (entry : BufferEntry) :
    (fun i => (Function.update buffer pos entry i).seq) =
      Function.update (fun i => (buffer i).seq) pos entry.seq :=
  Function.comp_update BufferEntry.seq buffer pos entry

theorem TelemetryInv.alreadyReceived_iff {s : TelemetryState} {recent : List UInt32}
    (h : TelemetryInv s recent) (seqnumber : UInt32) :
    alreadyReceived s seqnumber = true ↔ seqnumber ∈ recent.take bufSz := by
  rw [← h.window.mem_iff, alreadyReceived, List.any_eq_true]
  simp only [List.mem_range, decide_eq_true_eq]

/-- A frame that is received, and whether its `sendto` succeeds. -/
structure Received where
  rxData : RxPacket
  now : UInt64
  sendtoOk : Bool

namespace Received

def seqnumber (e : Received) : UInt32 := headerSeqnumber e.rxData.data

def length (e : Received) : Nat := (headerLength e.rxData.data).toNat

end Received

/-- What `process_packet` is for: a frame that passes is sent, and its number remembered if that
went well. -/
def filterPacket (recent : List UInt32) (e : Received) : Option (List UInt32 × Verdict) :=
  if Passes recent e.seqnumber then
    if e.length > 400 then none
    else if e.sendtoOk then some (e.seqnumber :: recent, .forwarded (headerData e.rxData.data))
    else some (recent, .failed)
  else some (recent, .dropped)

/-- **`process_packet` refines the filter.** -/
theorem processPacket_refines {s : TelemetryState} {recent : List UInt32}
    (h : TelemetryInv s recent) (e : Received) :
    Option.Rel (fun a c => c.2 = a.2 ∧ TelemetryInv c.1 a.1) (filterPacket recent e)
      (processPacket s e.rxData e.now e.sendtoOk) := by
  have hinv : TelemetryInv { s with status := countFrame s.status e.rxData e.now } recent :=
    ⟨h.window, h.lastseq⟩
  unfold processPacket filterPacket
  dsimp only
  by_cases hdup : alreadyReceived { s with status := countFrame s.status e.rxData e.now }
      (headerSeqnumber e.rxData.data) = true
  · have hnot : ¬Passes recent e.seqnumber := fun hp => hp.1 ((hinv.alreadyReceived_iff _).mp hdup)
    rw [if_pos hdup, if_neg hnot]
    exact .some ⟨rfl, hinv⟩
  · rw [if_neg hdup]
    rw [hinv.alreadyReceived_iff] at hdup
    by_cases hold : (headerSeqnumber e.rxData.data - s.lastseq).toNat > 2147483647
    · rw [if_pos hold]
      rw [h.lastseq, UInt32.sub_zero] at hold
      have hnot : ¬Passes recent e.seqnumber := fun hp => absurd hp.2 (Nat.not_le.mpr hold)
      rw [if_neg hnot]
      exact .some ⟨rfl, hinv⟩
    · rw [if_neg hold]
      rw [h.lastseq, UInt32.sub_zero] at hold
      have hpasses : Passes recent e.seqnumber := ⟨hdup, Nat.not_lt.mp hold⟩
      rw [if_pos hpasses]
      unfold forwardFrame
      by_cases hlen : (headerLength e.rxData.data).toNat > 400
      · rw [if_pos hlen, if_pos (show e.length > 400 from hlen)]
        exact .none
      · rw [if_neg hlen, if_neg (show ¬e.length > 400 from hlen)]
        cases e.sendtoOk with
        | false =>
          refine .some ⟨rfl, ?_, h.lastseq⟩
          simp only [seqs_update, Function.update_eq_self]
          exact h.window
        | true =>
          refine .some ⟨rfl, ?_, h.lastseq⟩
          simp only [seqs_update]
          exact h.window.push e.seqnumber

/-! ## No duplicates -/

/-- One frame of a run, with the numbers forwarded so far, the newest first. -/
def packetStep (s : TelemetryState × List UInt32) (e : Received) :
    Option (TelemetryState × List UInt32) :=
  (processPacket s.1 e.rxData e.now e.sendtoOk).map fun r =>
    (r.1, match r.2 with
      | .forwarded _ => e.seqnumber :: s.2
      | _ => s.2)

/-- The verdicts on the frames of a run. -/
def verdicts (s : TelemetryState) : List Received → List Verdict
  | [] => []
  | e :: es =>
    match processPacket s e.rxData e.now e.sendtoOk with
    | some r => r.2 :: verdicts r.1 es
    | none => []

/-- A frame that is forwarded has a number that none of the last 100 forwarded has. After one whose
`sendto` failed, everything goes on as if it had not been there, and a copy of it that is sent is
forwarded. -/
def NoDuplicate (s : TelemetryState × List UInt32) (e : Received) : Prop :=
  ∃ s' verdict, processPacket s.1 e.rxData e.now e.sendtoOk = some (s', verdict) ∧
    (∀ datagram, verdict = .forwarded datagram → e.seqnumber ∉ s.2.take bufSz) ∧
    (verdict = .failed → (∀ es, verdicts s' es = verdicts s.1 es) ∧
      ∀ now, (processPacket s' e.rxData now true).map Prod.snd =
        some (.forwarded (headerData e.rxData.data)))

/-- The window holds what was forwarded since the start, and behind it the 0 of the entries that
are not filled. -/
def TelemetryHist (s : TelemetryState × List UInt32) : Prop :=
  TelemetryInv s.1 (s.2 ++ List.replicate bufSz 0)

/-- Two states with the same window judge alike. -/
theorem verdicts_eq {s s' : TelemetryState} {recent : List UInt32} (h : TelemetryInv s recent)
    (h' : TelemetryInv s' recent) (es : List Received) : verdicts s es = verdicts s' es := by
  induction es generalizing s s' recent with
  | nil => rfl
  | cons e es ih =>
    have hrel := processPacket_refines h e
    have hrel' := processPacket_refines h' e
    rw [verdicts, verdicts]
    generalize filterPacket recent e = abs at hrel hrel'
    generalize processPacket s e.rxData e.now e.sendtoOk = con at hrel
    generalize processPacket s' e.rxData e.now e.sendtoOk = con' at hrel'
    cases hrel with
    | none =>
      cases hrel'
      rfl
    | some hinv =>
      cases hrel' with
      | some hinv' =>
        dsimp only
        rw [hinv.1, hinv'.1, ih hinv.2 hinv'.2]

theorem processPacket_of_filter {s : TelemetryState} {recent recent' : List UInt32}
    (h : TelemetryInv s recent) {e : Received} {verdict : Verdict}
    (hfilter : filterPacket recent e = some (recent', verdict)) :
    ∃ s', processPacket s e.rxData e.now e.sendtoOk = some (s', verdict) ∧
      TelemetryInv s' recent' := by
  have hrel := processPacket_refines h e
  rw [hfilter] at hrel
  generalize processPacket s e.rxData e.now e.sendtoOk = con at hrel
  cases hrel with
  | @some _ c hinv => exact ⟨c.1, congrArg some (Prod.ext rfl hinv.1), hinv.2⟩

theorem filter_of_processPacket {s s' : TelemetryState} {recent : List UInt32}
    (h : TelemetryInv s recent) {e : Received} {verdict : Verdict}
    (hrun : processPacket s e.rxData e.now e.sendtoOk = some (s', verdict)) :
    ∃ recent', filterPacket recent e = some (recent', verdict) ∧ TelemetryInv s' recent' := by
  have hrel := processPacket_refines h e
  rw [hrun] at hrel
  generalize filterPacket recent e = abs at hrel
  cases hrel with
  | @some a _ hinv => exact ⟨a.1, congrArg some (Prod.ext rfl hinv.1.symm), hinv.2⟩

/-- The filter remembers a number exactly when it forwards the frame. -/
theorem filterPacket_recent {recent recent' : List UInt32} {e : Received} {verdict : Verdict}
    (h : filterPacket recent e = some (recent', verdict)) :
    (∃ datagram, verdict = .forwarded datagram ∧ recent' = e.seqnumber :: recent ∧
        Passes recent e.seqnumber) ∨
      (∀ datagram, verdict ≠ .forwarded datagram) ∧ recent' = recent := by
  unfold filterPacket at h
  split_ifs at h with hpasses hlen hok
  · obtain ⟨rfl, rfl⟩ := Prod.mk.inj (Option.some.inj h)
    exact Or.inl ⟨_, rfl, rfl, hpasses⟩
  · obtain ⟨rfl, rfl⟩ := Prod.mk.inj (Option.some.inj h)
    exact Or.inr ⟨fun _ => by simp, rfl⟩
  · obtain ⟨rfl, rfl⟩ := Prod.mk.inj (Option.some.inj h)
    exact Or.inr ⟨fun _ => by simp, rfl⟩

/-- One frame of a run. -/
theorem noDuplicate_step {s : TelemetryState × List UInt32} (hs : TelemetryHist s) {e : Received}
    (hlen : e.length ≤ 400) :
    NoDuplicate s e ∧ ∀ s', packetStep s e = some s' → TelemetryHist s' := by
  have hover : ¬e.length > 400 := by omega
  by_cases hpasses : Passes (s.2 ++ List.replicate bufSz 0) e.seqnumber
  · cases hok : e.sendtoOk with
    | true =>
      obtain ⟨s', hrun, hinv⟩ := processPacket_of_filter hs
        (by rw [filterPacket, if_pos hpasses, if_neg hover, hok, if_pos rfl])
      refine ⟨⟨s', _, hrun, fun _ _ hmem => hpasses.1 ?_, fun hv => absurd hv (by simp)⟩, ?_⟩
      · rw [List.take_append]
        exact List.mem_append_left _ hmem
      · intro t ht
        rw [packetStep, hrun] at ht
        obtain rfl := Option.some.inj ht
        exact hinv
    | false =>
      obtain ⟨s', hrun, hinv⟩ := processPacket_of_filter hs (e := e)
        (by rw [filterPacket, if_pos hpasses, if_neg hover, hok, if_neg (by decide)])
      refine ⟨⟨s', _, hrun, fun _ hv => absurd hv (by simp),
        fun _ => ⟨verdicts_eq hinv hs, fun now => ?_⟩⟩, fun t ht => ?_⟩
      · have hfilter : filterPacket _ ⟨e.rxData, now, true⟩ = some (_, .forwarded _) :=
          (if_pos hpasses).trans ((if_neg hover).trans (if_pos rfl))
        obtain ⟨s'', hcopy, -⟩ := processPacket_of_filter hinv hfilter
        dsimp only at hcopy
        rw [hcopy]
        rfl
      · rw [packetStep, hrun] at ht
        obtain rfl := Option.some.inj ht
        exact hinv
  · obtain ⟨s', hrun, hinv⟩ := processPacket_of_filter hs (by rw [filterPacket, if_neg hpasses])
    refine ⟨⟨s', _, hrun, fun _ hv => absurd hv (by simp), fun hv => absurd hv (by simp)⟩, ?_⟩
    intro t ht
    rw [packetStep, hrun] at ht
    obtain rfl := Option.some.inj ht
    exact hinv

/-- **No duplicate telemetry**, in every run, whatever frames are received and whichever `sendto`
fail. -/
theorem telemetry_no_duplicate (es : List Received) (hlen : ∀ e ∈ es, e.length ≤ 400) :
    Run.Throughout packetStep NoDuplicate (.init, []) es :=
  Run.Throughout.of_invariant (fun _ e he s' hs => (noDuplicate_step hs (hlen e he)).2 s')
    (fun _ e he hs => (noDuplicate_step hs (hlen e he)).1) TelemetryInv.init

/-- A frame of which the first `sendto` fails, a copy of it that is forwarded, and a duplicate. -/
theorem telemetry_no_duplicate_copy :
    let frames : List Received :=
      [⟨⟨0, 1, -50, 8, ofList (le32 7 ++ le16 2 ++ [1, 2])⟩, 0, false⟩,
        ⟨⟨1, 1, -60, 8, ofList (le32 7 ++ le16 2 ++ [1, 2])⟩, 0, true⟩,
        ⟨⟨2, 1, -70, 8, ofList (le32 7 ++ le16 2 ++ [1, 2])⟩, 0, true⟩]
    verdicts .init frames = [.failed, .forwarded [1, 2], .dropped] ∧
      Run.Throughout packetStep NoDuplicate (.init, []) frames :=
  ⟨by decide +kernel, telemetry_no_duplicate _ (by decide)⟩

/-! ## Nothing fresh is lost -/

/-- What `wfb_rx_packet` returns when it does not end the loop. -/
inductive Poll where
  /-- A timeout. -/
  | idle
  /-- A descriptor that was ready without a packet: the buffer is all zeros. -/
  | empty (adapter : Nat)
  | frame (rxData : RxPacket)

namespace Poll

def result : Poll → Int
  | idle => 0
  | empty _ | frame _ => 1

def rxData : Poll → RxPacket
  | idle => .zero
  | empty adapter => { RxPacket.zero with adapter }
  | frame rxData => rxData

end Poll

/-- Every call of `wfb_rx_packet` ends the program or the loop, or is one of these. -/
theorem wfbRxPacket_poll {count : Nat} {rx rx' : WfbRx} {cycle : Cycle count} {r : Int}
    {rxData : RxPacket} (h : wfbRxPacket rx .zero cycle = some (r, rx', rxData)) :
    r < 0 ∨ ∃ poll : Poll, r = poll.result ∧ rxData = poll.rxData := by
  have hpolled := wfbRxPacket_spec rx cycle
  rw [h] at hpolled
  cases hpolled with
  | idle hresult =>
    rcases Int.lt_or_eq_of_le hresult with hlt | heq
    · exact Or.inl hlt
    · exact Or.inr ⟨.idle, heq, rfl⟩
  | empty _ _ _ => exact Or.inr ⟨.empty _, rfl, rfl⟩
  | frame _ _ _ _ _ _ _ => exact Or.inr ⟨.frame rxData, rfl, rfl⟩

/-- One cycle of `telemetry_rx_main`, with the numbers of the frames forwarded so far, the newest
first. `sendto` succeeds. -/
def telemetryStep (s : TelemetryState × List UInt32) (e : Poll × UInt64) :
    Option (TelemetryState × List UInt32) :=
  (telemetryMain s.1 e.1.result e.1.rxData e.2 true).map fun r =>
    (r.1, match e.1, r.2 with
      | .frame rxData, .forwarded _ => headerSeqnumber rxData.data :: s.2
      | _, _ => s.2)

/-- A frame is forwarded when its number is not among the last 100 forwarded and is newer than all
that were. -/
def FreshForwarded (s : TelemetryState × List UInt32) (e : Poll × UInt64) : Prop :=
  ∀ rxData, e.1 = .frame rxData → headerSeqnumber rxData.data ∉ s.2.take bufSz →
    (∀ f ∈ s.2, Newer (headerSeqnumber rxData.data) f) →
    ∃ s', telemetryMain s.1 e.1.result e.1.rxData e.2 true =
      some (s', .forwarded (headerData rxData.data))

/-- Number 0 comes after a frame that was forwarded, and a number in the upper half after one that
is half a circle behind. -/
def LowerHalf (s : TelemetryState × List UInt32) (e : Poll × UInt64) : Prop :=
  ∀ rxData, e.1 = .frame rxData →
    (headerSeqnumber rxData.data = 0 → s.2 ≠ []) ∧
    (2 ^ 31 ≤ (headerSeqnumber rxData.data).toNat →
      ∃ f ∈ s.2, f.toNat + 2 ^ 31 ≤ (headerSeqnumber rxData.data).toNat)

/-- The window holds the 0 of entries not filled and of empty packets, and frames forwarded, none
of which is in the upper half. -/
structure TelemetryPolled (s : TelemetryState × List UInt32) : Prop where
  window : ∃ recent, TelemetryInv s.1 recent ∧ ∀ k, ∀ x ∈ recent.take k, x = 0 ∨ x ∈ s.2.take k
  lower : ∀ f ∈ s.2, f.toNat < 2 ^ 31

theorem TelemetryPolled.init : TelemetryPolled (.init, []) := by
  refine ⟨⟨_, TelemetryInv.init, fun k x hx => Or.inl ?_⟩, fun f hf => absurd hf List.not_mem_nil⟩
  exact List.eq_of_mem_replicate (List.mem_of_mem_take hx)

theorem polled_cons {recent hist hist' : List UInt32} {n : UInt32}
    (h : ∀ k, ∀ x ∈ recent.take k, x = 0 ∨ x ∈ hist.take k)
    (hn : ∀ k, n = 0 ∨ n ∈ hist'.take (k + 1)) (hist_le : ∀ k, hist.take k ⊆ hist'.take (k + 1)) :
    ∀ k, ∀ x ∈ (n :: recent).take k, x = 0 ∨ x ∈ hist'.take k := by
  intro k x hx
  cases k with
  | zero => exact absurd hx List.not_mem_nil
  | succ k =>
    rw [List.take_succ_cons] at hx
    rcases List.mem_cons.mp hx with rfl | hx
    · exact hn k
    · exact (h k x hx).imp_right fun hmem => hist_le k hmem

/-- One cycle of the loop keeps the window. -/
theorem telemetryStep_polled {s s' : TelemetryState × List UInt32} (hs : TelemetryPolled s)
    {e : Poll × UInt64} (h : telemetryStep s e = some s') : TelemetryPolled s' := by
  obtain ⟨⟨recent, hinv, hsub⟩, hlower⟩ := hs
  obtain ⟨⟨t, verdict⟩, hrun, rfl⟩ := Option.map_eq_some_iff.mp h
  obtain ⟨poll, now⟩ := e
  cases poll with
  | idle =>
    obtain ⟨rfl, rfl⟩ := Prod.mk.inj (Option.some.inj hrun)
    exact ⟨⟨recent, hinv, hsub⟩, hlower⟩
  | empty adapter =>
    obtain ⟨recent', hfilter, hinv'⟩ :=
      filter_of_processPacket (e := ⟨(Poll.empty adapter).rxData, now, true⟩) hinv hrun
    refine ⟨⟨recent', hinv', ?_⟩, hlower⟩
    rcases filterPacket_recent hfilter with ⟨_, -, rfl, -⟩ | ⟨-, rfl⟩
    · -- The zeros are taken for a frame with number 0.
      exact polled_cons hsub (fun _ => Or.inl rfl) fun k =>
        List.take_subset_take_left s.2 (Nat.le_succ k)
    · exact hsub
  | frame rxData =>
    obtain ⟨recent', hfilter, hinv'⟩ := filter_of_processPacket (e := ⟨rxData, now, true⟩) hinv hrun
    rcases filterPacket_recent hfilter with ⟨_, rfl, rfl, hpasses⟩ | ⟨hnot, rfl⟩
    · refine ⟨⟨_, hinv', polled_cons hsub (fun k => Or.inr ?_) ?_⟩, ?_⟩
      · rw [List.take_succ_cons]
        exact List.mem_cons_self
      · intro k
        rw [List.take_succ_cons]
        exact List.subset_cons_self _ _
      · intro f hf
        rcases List.mem_cons.mp hf with rfl | hf
        · exact Nat.lt_of_le_of_lt hpasses.2 (by decide)
        · exact hlower f hf
    · cases verdict with
      | forwarded datagram => exact absurd rfl (hnot datagram)
      | dropped | failed => exact ⟨⟨_, hinv', hsub⟩, hlower⟩

/-- A number that is fresh passes, if and only if it is as described. -/
theorem passes_iff {recent hist : List UInt32} (hne : recent ≠ [])
    (hsub : ∀ k, ∀ x ∈ recent.take k, x = 0 ∨ x ∈ hist.take k)
    (hlower : ∀ f ∈ hist, f.toNat < 2 ^ 31) (n : UInt32) :
    (n ∉ hist.take bufSz → (∀ f ∈ hist, Newer n f) → Passes recent n) ↔
      (n = 0 → hist ≠ []) ∧ (2 ^ 31 ≤ n.toNat → ∃ f ∈ hist, f.toNat + 2 ^ 31 ≤ n.toNat) := by
  constructor
  · intro h
    constructor
    · -- Before the first frame is forwarded, all entries are 0.
      rintro rfl rfl
      obtain ⟨x, recent, rfl⟩ := List.exists_cons_of_ne_nil hne
      have hx := (hsub 1 x (by simp)).resolve_right List.not_mem_nil
      subst hx
      exact (h List.not_mem_nil fun f hf => absurd hf List.not_mem_nil).1 (by simp)
    · intro hn
      by_contra hno
      push Not at hno
      have hpasses := h (fun hmem => ?_) fun f hf => ?_
      · exact absurd hpasses.2 (by omega)
      · have := hlower n (List.mem_of_mem_take hmem)
        omega
      · have hf' := hlower f hf
        have := hno f hf
        exact (newer_of_le (by omega)).mpr (by omega)
  · rintro ⟨hzero, hupper⟩ hnot hnewer
    constructor
    · intro hmem
      rcases hsub _ n hmem with rfl | hmem
      · -- Number 0 is newer than nothing that was forwarded.
        obtain ⟨f, _, hhist⟩ := List.exists_cons_of_ne_nil (hzero rfl)
        have hf : f ∈ hist := hhist ▸ List.mem_cons_self
        exact absurd ((newer_of_lower (by decide) (hlower f hf)).mp (hnewer f hf))
          (Nat.not_lt_zero _)
      · exact hnot hmem
    · by_contra hgt
      obtain ⟨f, hf, hle⟩ := hupper (by omega)
      have := (newer_of_le (by omega)).mp (hnewer f hf)
      omega

/-- One cycle of the loop forwards what is fresh, if the number is as described. -/
theorem freshForwarded_iff {s : TelemetryState × List UInt32} (hs : TelemetryPolled s)
    (e : Poll × UInt64)
    (hlen : ∀ rxData, e.1 = .frame rxData → (headerLength rxData.data).toNat ≤ 400) :
    FreshForwarded s e ↔ LowerHalf s e := by
  obtain ⟨⟨recent, hinv, hsub⟩, hlower⟩ := hs
  apply forall₂_congr
  intro rxData hframe
  obtain ⟨poll, now⟩ := e
  obtain rfl : poll = .frame rxData := hframe
  have hover : ¬(headerLength rxData.data).toNat > 400 := by
    have := hlen rxData rfl
    omega
  -- The frame is forwarded exactly when it passes.
  have hforward : (∃ s', telemetryMain s.1 1 rxData now true =
      some (s', .forwarded (headerData rxData.data))) ↔
        Passes recent (headerSeqnumber rxData.data) := by
    by_cases hpasses : Passes recent (headerSeqnumber rxData.data)
    · have hfilter : filterPacket recent ⟨rxData, now, true⟩ = some (_, .forwarded _) :=
        (if_pos hpasses).trans ((if_neg hover).trans (if_pos rfl))
      obtain ⟨s', hrun, -⟩ := processPacket_of_filter hinv hfilter
      exact iff_of_true ⟨s', hrun⟩ hpasses
    · have hfilter : filterPacket recent ⟨rxData, now, true⟩ = some (_, .dropped) :=
        if_neg hpasses
      obtain ⟨s', hrun, -⟩ := processPacket_of_filter hinv hfilter
      refine iff_of_false (fun ⟨t, ht⟩ => ?_) hpasses
      exact absurd (Prod.mk.inj (Option.some.inj (ht.symm.trans hrun))).2 (by simp)
  simp only [Poll.result, Poll.rxData, hforward]
  exact passes_iff (fun h => by simpa [h] using hinv.window.cell 0 (by decide)) hsub hlower _

/-- **Fresh telemetry** is forwarded throughout a run if and only if the numbers that arrive are as
described. -/
theorem telemetry_fresh (es : List (Poll × UInt64)) (hlen : ∀ e ∈ es, ∀ rxData,
    e.1 = .frame rxData → (headerLength rxData.data).toNat ≤ 400) :
    Run.Throughout telemetryStep FreshForwarded (.init, []) es ↔
      Run.Throughout telemetryStep LowerHalf (.init, []) es :=
  Run.Throughout.congr (fun _ _ _ _ hs h => telemetryStep_polled hs h)
    (fun _ e he hs => freshForwarded_iff hs e (hlen e he)) TelemetryPolled.init

/-- The first frame of a transmitter has number 0. -/
theorem telemetry_first_lost : ¬Run.Throughout telemetryStep FreshForwarded (.init, [])
    [(.frame ⟨0, 1, -50, 8, ofList (le32 0 ++ le16 2 ++ [1, 2])⟩, 0)] := by
  intro h
  obtain ⟨s', hrun⟩ := h.1 _ rfl List.not_mem_nil fun f hf => absurd hf List.not_mem_nil
  have hdropped :
      (telemetryMain .init 1 ⟨0, 1, -50, 8, ofList (le32 0 ++ le16 2 ++ [1, 2])⟩ 0 true).map
        Prod.snd = some .dropped := rfl
  have hforwarded := congrArg (Option.map Prod.snd) hrun
  exact absurd (hdropped.symm.trans hforwarded) (by simp)

/-- Numbers 1 and 2 of a transmitter, with an empty packet between them. -/
theorem telemetry_fresh_second :
    Run.Throughout telemetryStep FreshForwarded (.init, [])
      [(.frame ⟨0, 1, -50, 8, ofList (le32 1 ++ le16 2 ++ [1, 2])⟩, 0), (.empty 0, 1),
        (.frame ⟨0, 1, -50, 8, ofList (le32 2 ++ le16 2 ++ [3, 4])⟩, 2)] ↔
    Run.Throughout telemetryStep LowerHalf (.init, [])
      [(.frame ⟨0, 1, -50, 8, ofList (le32 1 ++ le16 2 ++ [1, 2])⟩, 0), (.empty 0, 1),
        (.frame ⟨0, 1, -50, 8, ofList (le32 2 ++ le16 2 ++ [3, 4])⟩, 2)] :=
  telemetry_fresh _ (by
    intro e he rxData hframe
    simp only [List.mem_cons, List.not_mem_nil, or_false] at he
    rcases he with rfl | rfl | rfl
    · obtain rfl := Poll.frame.inj hframe
      decide
    · exact absurd hframe (by simp)
    · obtain rfl := Poll.frame.inj hframe
      decide)

end Rhex
