import Mathlib
import Rhex.StreamHeader
import Rhex.StreamInterface
import Rhex.VideoLink

/-!
# Video over the air (`camera.c`, `video.c`)

The robot gives bytes to `wfb_tx_stream`, whose frames go to the driver; in each cycle of
`video_main` the ground station calls `wfb_rx_stream` and writes what it returns to a pipe. In
between are the radio and the drivers, which replace the radiotap headers.

* `SendsHeaded` — the header of the stream stands before every packet that is written.
* `videoMain` — a cycle of the ground station.
* `HearsFrames` — the cycles in which frames of the transmitted blocks are received, among others in
  which nothing is.
* `video_over_air` — what is written to the pipe.
-/

namespace Rhex

open Memory Traced

/-! ## The frames of a stream -/

/-- Each packet that is written stands behind the header. -/
def FramesHeaded (header : List UInt8) (packets : List TxPacket) : Prop :=
  ∀ p ∈ packets, ∀ f, p.frame = some f → f = header ++ p.payload

theorem FramesHeaded.concat {header : List UInt8} {packets : List TxPacket} {p : TxPacket}
    (h : FramesHeaded header packets) (hp : ∀ f, p.frame = some f → f = header ++ p.payload) :
    FramesHeaded header (packets ++ [p]) := by
  intro q hq f hf
  obtain hq | hq := List.mem_append.mp hq
  · exact h q hq f hf
  · obtain rfl := List.mem_singleton.mp hq
    exact hp f hf

/-- The sending loop, with the header in the buffer. -/
structure SendsHeaded (header : List UInt8) (l : TransmitLoop) : Prop where
  headed : Headed header l.s
  frames : FramesHeaded header l.packets

namespace SendsHeaded

variable {header : List UInt8} {l : TransmitLoop}

theorem data (h : SendsHeaded header l) (packetLength nrData : Nat) (dataBlocks : Nat → Buf) :
    SendsHeaded header (transmitData packetLength nrData dataBlocks l) := by
  obtain ⟨hheaded, hframe⟩ :=
    h.headed.transmit (.ofNat l.seqNrTmp) (dataBlocks l.di) packetLength
  unfold transmitData
  split_ifs
  · refine ⟨hheaded, h.frames.concat fun f hf => ?_⟩
    rw [← Option.some.inj hf]
    exact hframe
  · exact h

theorem fec (h : SendsHeaded header l) (packetLength nrFec : Nat) (fecBlocks : Nat → Buf) :
    SendsHeaded header (transmitFec packetLength nrFec fecBlocks l) := by
  obtain ⟨hheaded, hframe⟩ := h.headed.transmit (.ofNat l.seqNrTmp) (fecBlocks l.fi) packetLength
  unfold transmitFec
  by_cases hfi : l.fi < nrFec
  · rw [if_pos hfi]
    by_cases hskip : l.s.skipfec < 1 ∨ l.counterfec % 2 = 0
    · simp only [if_pos hskip]
      refine ⟨hheaded, h.frames.concat fun f hf => ?_⟩
      rw [← Option.some.inj hf]
      exact hframe
    · simp only [if_neg hskip]
      exact ⟨h.headed, h.frames.concat fun f hf => nomatch hf⟩
  · rw [if_neg hfi]
    exact h

theorem round (h : SendsHeaded header l) (packetLength nrData nrFec : Nat)
    (dataBlocks fecBlocks : Nat → Buf) :
    SendsHeaded header (transmitRound packetLength nrData nrFec dataBlocks fecBlocks l) := by
  have hsent := (h.data packetLength nrData dataBlocks).fec packetLength nrFec fecBlocks
  exact ⟨⟨hsent.headed.phdrLen, hsent.headed.buf⟩, hsent.frames⟩

end SendsHeaded

section

variable {header : List UInt8} {env : TxEnv} {s s' : TxState} {blocks : List TxBlock}

theorem pbTransmitBlock_headed {block : TxBlock} (hs : Headed header s)
    (h : pbTransmitBlock env s paramPacketLength paramDataPacketsPerBlock
      paramFecPacketsPerBlock = some (s', block)) :
    Headed header s' ∧ FramesHeaded header block.packets := by
  obtain ⟨fecBlocks, l, hrun, -, -, hsent⟩ :=
    pbTransmitBlock_runs env s paramPacketLength (P := fun _ l => SendsHeaded header l)
      ⟨⟨hs.phdrLen, hs.buf⟩, fun p hp => absurd hp List.not_mem_nil⟩
      fun dataBlocks fecBlocks _ _ _ _ hl => hl.round _ _ _ dataBlocks fecBlocks
  obtain ⟨rfl, rfl⟩ := Prod.mk.inj (Option.some.inj (h.symm.trans hrun))
  refine ⟨⟨?_, ?_⟩, hsent.frames⟩
  · simp only [resetBlock, measureBlock]
    split_ifs <;> exact hsent.headed.phdrLen
  · simp only [resetBlock, measureBlock]
    split_ifs <;> exact hsent.headed.buf

theorem finishPacket_headed (hs : Headed header s) (h : finishPacket env s = some (s', blocks)) :
    Headed header s' ∧ ∀ block ∈ blocks, FramesHeaded header block.packets := by
  have hstamped : Headed header (stampPacket s) := ⟨hs.phdrLen, hs.buf⟩
  rw [finishPacket_eq] at h
  split at h
  · obtain ⟨⟨t, block⟩, hblock, h⟩ := Option.bind_eq_some_iff.mp h
    obtain ⟨rfl, rfl⟩ := Prod.mk.inj (Option.some.inj h)
    obtain ⟨hheaded, hframes⟩ := pbTransmitBlock_headed hstamped hblock
    exact ⟨⟨hheaded.phdrLen, hheaded.buf⟩, by simpa using hframes⟩
  · obtain ⟨rfl, rfl⟩ := Prod.mk.inj (Option.some.inj h)
    exact ⟨⟨hs.phdrLen, hs.buf⟩, fun block hb => absurd hb List.not_mem_nil⟩

theorem checkPacket_headed (hs : Headed header s) (h : checkPacket env s = some (s', blocks)) :
    Headed header s' ∧ ∀ block ∈ blocks, FramesHeaded header block.packets := by
  rw [checkPacket] at h
  split at h
  · exact finishPacket_headed hs h
  · obtain ⟨rfl, rfl⟩ := Prod.mk.inj (Option.some.inj h)
    exact ⟨hs, fun block hb => absurd hb List.not_mem_nil⟩

theorem wfbTxLoop_headed {data : Buf} {len fuel offset : Nat} (hs : Headed header s)
    (h : wfbTxLoop env data len fuel s offset = some (s', blocks)) :
    Headed header s' ∧ ∀ block ∈ blocks, FramesHeaded header block.packets := by
  induction fuel generalizing s offset blocks with
  | zero => cases h
  | succ fuel ih =>
    obtain ⟨filled, next, hfill⟩ : ∃ filled next, fillPacket data len s offset = (filled, next) :=
      ⟨_, _, rfl⟩
    have hfilled : Headed header filled := by
      obtain rfl : (fillPacket data len s offset).1 = filled := congrArg Prod.fst hfill
      exact ⟨hs.phdrLen, hs.buf⟩
    rw [wfbTxLoop, hfill] at h
    obtain ⟨⟨t, first⟩, hcheck, h⟩ := Option.bind_eq_some_iff.mp h
    obtain ⟨ht, hfirst⟩ := checkPacket_headed hfilled hcheck
    dsimp only at h
    split at h
    · obtain ⟨⟨u, more⟩, hmore, h⟩ := Option.bind_eq_some_iff.mp h
      obtain ⟨rfl, rfl⟩ := Prod.mk.inj (Option.some.inj h)
      obtain ⟨hu, hrest⟩ := ih ht hmore
      exact ⟨hu, List.forall_mem_append.mpr ⟨hfirst, hrest⟩⟩
    · obtain ⟨rfl, rfl⟩ := Prod.mk.inj (Option.some.inj h)
      exact ⟨ht, hfirst⟩

/-- The header of the stream stands before every packet of a run. -/
theorem wfbTxRun_headed {calls : List (Buf × UInt16)} (hs : Headed header s)
    (h : wfbTxRun env s calls = some (s', blocks)) :
    Headed header s' ∧ ∀ block ∈ blocks, FramesHeaded header block.packets := by
  induction calls generalizing s blocks with
  | nil =>
    obtain ⟨rfl, rfl⟩ := Prod.mk.inj (Option.some.inj h)
    exact ⟨hs, fun block hb => absurd hb List.not_mem_nil⟩
  | cons call calls ih =>
    obtain ⟨data, len⟩ := call
    rw [wfbTxRun] at h
    obtain ⟨⟨t, first⟩, hfirst, h⟩ := Option.bind_eq_some_iff.mp h
    obtain ⟨⟨u, more⟩, hmore, h⟩ := Option.bind_eq_some_iff.mp h
    obtain ⟨rfl, rfl⟩ := Prod.mk.inj (Option.some.inj h)
    obtain ⟨ht, hframes⟩ := wfbTxLoop_headed hs hfirst
    obtain ⟨hu, hrest⟩ := ih ht hmore
    exact ⟨hu, List.forall_mem_append.mpr ⟨hframes, hrest⟩⟩

end

/-! ## The ground station -/

/-- The stream of `video_main`, and what it has written to the pipe. -/
structure VideoState where
  stream : StreamRx
  written : List UInt8

/-- What `rx_data`, a local variable, holds in a cycle of `video_main`, and what the system
answers. -/
structure VideoCycle (count : Nat) where
  stack : Buf
  cycle : Cycle count

/-- A cycle of `video_main`; `write` takes all bytes. -/
def videoMain (clk : Nat → UInt64) {count : Nat} (v : VideoState) (e : VideoCycle count) :
    Option VideoState :=
  (wfbRxStream clk v.stream ⟨0, e.stack⟩ e.cycle).result.map fun r =>
    ⟨r.2.state,
      if r.2.rxData.bytes > 0 then v.written ++ r.2.rxData.content else v.written⟩

/-- After `video_init`. -/
def VideoState.init (malloc : Nat → Buf) : VideoState := ⟨.init malloc, []⟩

/-! ## What is heard -/

/-- The packet as it is handed to `process_payload`. -/
def TxPacket.handed (p : TxPacket) : PayloadData := ⟨ofList p.payload, p.payload.length, true⟩

theorem delivers_handed (p : TxPacket) : Delivers p.handed p := ⟨rfl, slice_ofList p.payload⟩

/-- The packets heard in some cycles: in a cycle there is nothing to receive, or a frame of one of
the blocks arrives at one of the adapters, behind another radiotap header. -/
inductive HearsFrames {count : Nat} (blocks : List TxBlock) :
    List (VideoCycle count) → List TxPacket → Prop where
  | nil : HearsFrames blocks [] []
  /-- `select` has a timeout, or fails. -/
  | idle {e es dlv} (hresult : e.cycle.result ≤ 0) (hes : HearsFrames blocks es dlv) :
      HearsFrames blocks (e :: es) dlv
  | empty {e es dlv} (hresult : 0 < e.cycle.result) (hnext : e.cycle.next = .empty)
      (hes : HearsFrames blocks es dlv) : HearsFrames blocks (e :: es) dlv
  | frame {e es dlv block p f rt c} (hresult : 0 < e.cycle.result)
      (hnext : e.cycle.next = .frame c) (hblock : block ∈ blocks) (hp : p ∈ block.packets)
      (hf : p.frame = some f) (hrt : ValidRadiotap rt) (hheard : Heard c rt (onAir f))
      (hes : HearsFrames blocks es dlv) : HearsFrames blocks (e :: es) (p :: dlv)

section

variable {clk : Nat → UInt64} {p : TxPacket} {pd pd' : PayloadData}

/-- What lies behind the packet in memory does not matter. -/
theorem Delivers.processPayload_eq {s : RxState} (hs : RxInv s) (h : Delivers pd p)
    (h' : Delivers pd' p) (rxData : RxData) :
    processPayload clk s pd rxData = processPayload clk s pd' rxData := by
  have hsize : pd.size = pd'.size := h.size.trans h'.size.symm
  have hall : slice pd.data 0 pd.size = slice pd'.data 0 pd.size := by
    rw [h.bytes, hsize, h'.bytes]
  have hpart {off n : Nat} (hle : off + n ≤ pd.size) :
      slice pd.data off n = slice pd'.data off n := by
    refine slice_congr fun k hk => ?_
    simpa using slice_eq_iff.mp hall (off + k) (by omega)
  refine processPayload_congr clk s rxData hsize (h.crcOk.trans h'.crcOk.symm)
    (hpart (by rw [h.size]; simp)) fun r slot dataLen hrun hstored => hpart ?_
  obtain ⟨r', hrun', hprocessed, -⟩ := processPayload_spec clk hs h.crcOk rxData
  obtain rfl := Option.some.inj (hrun.symm.trans hrun')
  obtain ⟨-, hcopy⟩ | ⟨-, hcopy⟩ := hprocessed.stored_eq
  · obtain ⟨-, rfl⟩ := Prod.mk.inj (Option.some.inj (hstored.symm.trans hcopy))
    rw [PayloadData.dataLen, sizeSub, if_pos (by rw [h.size]; simp), h.size]
    simp
  · cases hstored.symm.trans hcopy

theorem Collected.of_same {blocks : List TxBlock} {dlv : List PayloadData} {s s' : RxState}
    {out : List UInt8} {flushed : List Int} (hsame : SameBuffers s s')
    (h : Collected blocks dlv s out flushed) : Collected blocks dlv s' out flushed := by
  have hpackets : s'.packets = s.packets :=
    congrArg (fun l => (l 0).packetBufferList) hsame.blockBufferList
  exact ⟨h.inv.of_same hsame, hsame.maxBlockNum.trans h.max, hpackets ▸ h.there,
    hpackets ▸ h.holds, h.out, hsame.maxBlockNum ▸ h.flushed_lt, h.flushed_once⟩

end

/-! ## One cycle -/

/-- What the ground station has made of the packets heard. -/
inductive Gathered (blocks : List TxBlock) (v : VideoState) : List TxPacket → Prop where
  | nothing (hinv : RxInv v.stream.rx) (hmax : v.stream.rx.maxBlockNum = -1)
      (hwritten : v.written = []) : Gathered blocks v []
  | packets {dlv} (hne : dlv ≠ []) (hall : ∀ p ∈ dlv, Carries blocks p.handed)
      (flushed : List Int)
      (h : Collected blocks (dlv.map TxPacket.handed) v.stream.rx v.written flushed) :
      Gathered blocks v dlv

namespace Gathered

variable {blocks : List TxBlock} {v : VideoState} {dlv : List TxPacket}

theorem written (h : Gathered blocks v dlv) :
    v.written = expectedOutput blocks (dlv.map TxPacket.handed) := by
  cases h with
  | nothing _ _ hwritten => exact hwritten
  | packets _ _ flushed h => exact h.out

theorem inv (h : Gathered blocks v dlv) : RxInv v.stream.rx := by
  cases h with
  | nothing hinv _ _ => exact hinv
  | packets _ _ flushed h => exact h.inv

theorem of_same (h : Gathered blocks v dlv) {stream : StreamRx}
    (hsame : SameBuffers v.stream.rx stream.rx) : Gathered blocks ⟨stream, v.written⟩ dlv := by
  cases h with
  | nothing hinv hmax hwritten =>
    exact .nothing (hinv.of_same hsame) (hsame.maxBlockNum.trans hmax) hwritten
  | packets hne hall flushed h => exact .packets hne hall flushed (h.of_same hsame)

/-- One more packet. -/
theorem step (h : Gathered blocks v dlv) (clk : Nat → UInt64) (hblocks : Sent blocks) {p : TxPacket}
    (hp : Carries blocks p.handed)
    (hwin : highest (dlv.map TxPacket.handed) ≤ p.handed.blockNum + 128) (stack : Buf) :
    ∃ r, processPayload clk v.stream.rx p.handed ⟨0, stack⟩ = some r ∧
      Gathered blocks ⟨{ v.stream with rx := r.state }, v.written ++ r.rxData.content⟩
        (dlv ++ [p]) := by
  cases h with
  | nothing hinv hmax hwritten =>
    obtain ⟨run', hstep, hfirst⟩ := Collected.first clk hblocks ⟨v.stream.rx, stack, [], []⟩ hinv
      rfl rfl hp (.inl hmax)
    obtain ⟨r, hr, hrun⟩ := Option.bind_eq_some_iff.mp hstep
    obtain rfl := Option.some.inj hrun
    refine ⟨r, hr, .packets (by simp) (by simpa using hp) ([] ++ r.flushed.toList) ?_⟩
    rw [hwritten]
    exact hfirst
  | packets hne hall flushed h =>
    have hne' : dlv.map TxPacket.handed ≠ [] := by simpa using hne
    obtain ⟨top, htop, hhigh⟩ := exists_highest hne'
    obtain ⟨q, hq, rfl⟩ := List.mem_map.mp htop
    obtain ⟨run', hstep, hnext⟩ := @Collected.step blocks (dlv.map TxPacket.handed) p.handed clk
      hblocks ⟨v.stream.rx, stack, v.written, flushed⟩ h
      (hhigh ▸ (hall q hq).blockNum_lt hblocks) (fun pd hpd => le_highest hpd) hp hwin
    obtain ⟨r, hr, hrun⟩ := Option.bind_eq_some_iff.mp hstep
    obtain rfl := Option.some.inj hrun
    refine ⟨r, hr, .packets (by simp) ?_ (flushed ++ r.flushed.toList) ?_⟩
    · intro x hx
      obtain hx | hx := List.mem_append.mp hx
      · exact hall x hx
      · exact List.mem_singleton.mp hx ▸ hp
    · rw [List.map_append]
      exact hnext

end Gathered

theorem videoMain_silent {clk : Nat → UInt64} {count : Nat} {v : VideoState} {e : VideoCycle count}
    (h : e.cycle.result ≤ 0 ∨ e.cycle.next = .empty) :
    videoMain clk v e = some ⟨watchAdapters clk count v.stream, v.written⟩ := by
  rw [videoMain, wfbRxStream]
  by_cases hresult : e.cycle.result > 0
  · have hnext : e.cycle.next = .empty := h.resolve_left (by omega)
    simp only [if_pos hresult, e.cycle.find_adapter hresult, hnext]
    rfl
  · simp only [if_neg hresult]
    rfl

/-- **A frame.** Its packet is handed to `process_payload`. -/
theorem videoMain_frame (clk : Nat → UInt64) {count : Nat} {v : VideoState} {e : VideoCycle count}
    {c : Capture} {p : TxPacket} (hinv : RxInv v.stream.rx) (hresult : 0 < e.cycle.result)
    (hnext : e.cycle.next = .frame c) (hands : ∀ interface, Hands interface c p.payload) :
    ∃ stream : StreamRx, SameBuffers v.stream.rx stream.rx ∧
      videoMain clk v e =
        (processPayload clk stream.rx p.handed ⟨0, e.stack⟩).map fun r =>
          ⟨{ stream with rx := r.state }, v.written ++ r.rxData.content⟩ := by
  have hwatched : SameBuffers v.stream.rx (watchAdapters clk count v.stream).rx :=
    watchAdapters_same clk count v.stream
  obtain ⟨accepted, hbytes⟩ := hands ((watchAdapters clk count v.stream).iface e.cycle.adapter)
  obtain ⟨stream, hsame, hrun, -⟩ := receiveVideo_hands clk count accepted ⟨0, e.stack⟩
  have hdelivers : Delivers
      (c.packet ((watchAdapters clk count v.stream).iface e.cycle.adapter)) p := ⟨rfl, hbytes⟩
  refine ⟨stream, hwatched.trans hsame, ?_⟩
  have hinv' := (hinv.of_same hwatched).of_same hsame
  rw [hdelivers.processPayload_eq hinv' (delivers_handed p)] at hrun
  simp only [videoMain, wfbRxStream, if_pos (show e.cycle.result > 0 from hresult),
    e.cycle.find_adapter hresult, hnext, wfbRxStreamInterface, result_bind, hrun]
  cases processPayload clk stream.rx p.handed ⟨0, e.stack⟩ with
  | none => rfl
  | some r =>
    have hcontent : (if r.rxData.bytes > 0 then v.written ++ r.rxData.content else v.written) =
        v.written ++ r.rxData.content := by
      split_ifs with hbytes
      · rfl
      · rw [RxData.content, Nat.eq_zero_of_not_pos hbytes, slice_zero, List.append_nil]
    exact congrArg (fun written => some (VideoState.mk { stream with rx := r.state } written))
      hcontent

/-! ## The run -/

/-- The cycles of `video_main`. -/
def videoRun (clk : Nat → UInt64) {count : Nat} (v : VideoState) (es : List (VideoCycle count)) :
    Option VideoState :=
  es.foldlM (videoMain clk) v

section

variable {type : Nat} {port : Int} {ieee : List UInt8} {useSTBC useLDPC : Bool}
  {blocks : List TxBlock}

/-- A frame of the stream that is heard is handed over. -/
theorem hands_headed (htype : type ≤ 2) (hieee : streamIeeeHeader port type = some ieee)
    {p : TxPacket} {f rt : List UInt8} {c : Capture}
    (hf : f = streamHeader false useSTBC useLDPC ieee ++ p.payload)
    (hlen : p.data.length ≤ paramPacketLength) (hrt : ValidRadiotap rt)
    (hheard : Heard c rt (onAir f)) (interface : MonitorInterface) :
    Hands interface c p.payload := by
  obtain ⟨_, hsome, hge, hle, hkind⟩ := streamIeeeHeader_spec port htype
  obtain rfl := Option.some.inj (hieee.symm.trans hsome)
  have hair := onAir_streamHeader htype hieee false useSTBC useLDPC p.payload
  rw [← hf] at hair
  rw [streamHeader, if_neg Bool.false_ne_true] at hf
  rw [hf, List.append_assoc, List.drop_left, ← List.append_assoc, ← hf] at hair
  rw [hair] at hheard
  refine hheard.hands hrt (by omega) (hkind interface) ?_
  have hlt := hrt.length_lt
  have hpayload := p.length_payload
  simp only [List.length_append, paramPacketLength] at hlen ⊢
  omega

/-- **The cycles, one after the other.** -/
theorem Gathered.run (clk : Nat → UInt64) (hblocks : Sent blocks) {count : Nat}
    {es : List (VideoCycle count)} {heard : List TxPacket}
    (hands : ∀ block ∈ blocks, ∀ p ∈ block.packets, ∀ f, p.frame = some f → ∀ rt c,
      ValidRadiotap rt → Heard c rt (onAir f) → ∀ interface, Hands interface c p.payload)
    (hes : HearsFrames blocks es heard) {v : VideoState} {dlv : List TxPacket}
    (h : Gathered blocks v dlv) (hwin : InWindow ((dlv ++ heard).map TxPacket.handed)) :
    ∃ v', videoRun clk v es = some v' ∧ Gathered blocks v' (dlv ++ heard) := by
  induction hes generalizing v dlv with
  | nil => exact ⟨v, rfl, by rwa [List.append_nil]⟩
  | idle hresult hes ih =>
    obtain ⟨v', hrun, hv'⟩ := ih (h.of_same (watchAdapters_same clk count v.stream)) hwin
    refine ⟨v', ?_, hv'⟩
    rw [videoRun, List.foldlM_cons, videoMain_silent (.inl hresult)]
    exact hrun
  | empty hresult hnext hes ih =>
    obtain ⟨v', hrun, hv'⟩ := ih (h.of_same (watchAdapters_same clk count v.stream)) hwin
    refine ⟨v', ?_, hv'⟩
    rw [videoRun, List.foldlM_cons, videoMain_silent (.inr hnext)]
    exact hrun
  | @frame e es heard block p f rt c hresult hnext hblock hp hf hrt hheard hes ih =>
    obtain ⟨b, hb⟩ := List.mem_iff_getElem?.mp hblock
    have hcarries : Carries blocks p.handed :=
      ⟨b, p.kind, ⟨block, p, hb, hp, rfl, delivers_handed p⟩⟩
    obtain ⟨stream, hsame, hmain⟩ := videoMain_frame clk h.inv hresult hnext
      (hands block hblock p hp f hf rt c hrt hheard)
    have hfirst : highest (dlv.map TxPacket.handed) ≤ p.handed.blockNum + 128 :=
      hwin _ _ (heard.map TxPacket.handed) (by rw [List.map_append, List.map_cons])
    obtain ⟨r, hr, hstep⟩ := (h.of_same hsame).step clk hblocks hcarries hfirst e.stack
    rw [List.append_cons] at hwin ⊢
    obtain ⟨v', hrun, hv'⟩ := ih hstep hwin
    refine ⟨v', ?_, hv'⟩
    rw [videoRun, List.foldlM_cons, hmain, hr]
    exact hrun

end

/-- **Video over the air.** Whatever bytes are given to a stream without MCS, as long as its
`seq_nr` does not wrap, the packets of its blocks are written. In whichever cycles, on whichever
adapters and behind whichever radiotap headers its frames are received, also lost, repeated or out
of order, as long as none is more than 128 blocks late: no call ends the program, and what is
written to the pipe are the payloads of the blocks below the last one heard, whole where the FEC
packets heard make up for the data packets missing. -/
theorem video_over_air {type : Nat} (htype : type ≤ 2) (port : Int) (useSTBC useLDPC : Bool)
    (malloc malloc' : Nat → Buf) (env : TxEnv) (clk : Nat → UInt64)
    (calls : List (Buf × UInt16)) :
    ∃ s s' blocks, wfbStreamInitRadio port type false useSTBC useLDPC malloc = some s ∧
      wfbTxRun env s calls = some (s', blocks) ∧
      (blocks.length < 357913941 → WrittenBlocks s.phdrLen blocks ∧
        ∀ (count : Nat) (es : List (VideoCycle count)) (heard : List TxPacket),
          HearsFrames blocks es heard → InWindow (heard.map TxPacket.handed) →
          ∃ v, videoRun clk (.init malloc') es = some v ∧
            v.written = expectedOutput blocks (heard.map TxPacket.handed)) := by
  obtain ⟨ieee, hieee, -⟩ := streamIeeeHeader_spec port htype
  obtain ⟨s, hinit, hfresh, hheaded⟩ :=
    wfbStreamInitRadio_spec hieee false useSTBC useLDPC malloc
  obtain ⟨s', blocks, hrun, -, hsent⟩ := sent_of_run env hfresh calls
  obtain ⟨-, hframes⟩ := wfbTxRun_headed hheaded hrun
  refine ⟨s, s', blocks, hinit, hrun, ?_⟩
  intro hlen
  obtain ⟨hblocks, hwritten⟩ := hsent hlen
  refine ⟨hwritten, fun count es heard hes hwin => ?_⟩
  have hands : ∀ block ∈ blocks, ∀ p ∈ block.packets, ∀ f, p.frame = some f → ∀ rt c,
      ValidRadiotap rt → Heard c rt (onAir f) → ∀ interface, Hands interface c p.payload := by
    intro block hblock p hp f hf rt c hrt hheard interface
    obtain ⟨b, hb⟩ := List.mem_iff_getElem?.mp hblock
    have hgood := hblocks.good b block hb
    refine hands_headed htype hieee (hframes block hblock p hp f hf) ?_ hrt hheard interface
    cases hkind : p.kind with
    | data di => rw [hgood.data p hp di hkind, length_slice]
    | fec fi => exact (hgood.fec p hp fi hkind).1.le
  have hfresh' := wfbRxStreamInit_fresh malloc'
  have hstart : Gathered blocks (.init malloc') [] :=
    .nothing hfresh'.inv hfresh'.maxBlockNum rfl
  obtain ⟨v, hv, hgathered⟩ := hstart.run clk hblocks hands hes hwin
  exact ⟨v, hv, hgathered.written⟩

/-- Any packets that are always sent can be heard one after the other. -/
theorem exists_hearsFrames {phdrLen : Nat} {blocks : List TxBlock} (hblocks : Sent blocks)
    (hwritten : WrittenBlocks phdrLen blocks) (hphdr : phdrLen < 2 ^ 16)
    {l : List (Nat × BlockPacket)} (hl : ∀ x ∈ l, x.1 < blocks.length ∧ x.2.AlwaysSent) :
    ∃ (es : List (VideoCycle 1)) (heard : List TxPacket), HearsFrames blocks es heard ∧
      (heard.map TxPacket.handed).map PayloadData.sequenceNumber =
        l.map fun x => .ofNat (12 * x.1 + x.2.slot) := by
  induction l with
  | nil => exact ⟨[], [], .nil, rfl⟩
  | cons x l ih =>
    obtain ⟨⟨hb, hk⟩, hrest⟩ := List.forall_mem_cons.mp hl
    have hblock := List.getElem?_eq_getElem hb
    have hgood := hblocks.good _ _ hblock
    obtain ⟨p, hp, hslot, hkind⟩ := hgood.packet hk.valid
    obtain ⟨f, hframe, hlength, -⟩ := (hwritten _ _ hblock).frame _ hk
    rw [TxBlock.frame, hslot, Option.bind_some] at hframe
    have hseq : p.handed.sequenceNumber = .ofNat (12 * x.1 + x.2.slot) := by
      rw [(delivers_handed p).sequenceNumber, hgood.seqNr p hp, hkind]
    have hshort : ([0, 0, 8, 0, 0, 0, 0, 0] ++ onAir f).length < 2 ^ 32 := by
      rw [List.length_append, onAir, List.length_drop]
      simp only [List.length_cons, List.length_nil, sizeofWifiPacketHeader,
        paramPacketLength] at hlength ⊢
      omega
    obtain ⟨es, heard, hes, hseqs⟩ := ih hrest
    exact ⟨⟨fun _ => 0, ⟨1, fun _ => true, .frame _, 0, fun _ => ⟨0, Nat.one_pos, rfl⟩⟩⟩ :: es,
      p :: heard, .frame (show 0 < (1 : Int) by decide) rfl (List.mem_of_getElem? hblock) hp hframe
        ⟨by decide, by decide⟩ (heard_ofList _ _ hshort) hes,
      by rw [List.map_cons, List.map_cons, List.map_cons, hseq, hseqs]⟩

/-- Two blocks and a lossy delivery: the whole of block 0 is written. -/
theorem video_over_air_lossy : ∃ s s' blocks heard v, ∃ es : List (VideoCycle 1),
    wfbStreamInitRadio 0 1 false false false (fun _ _ => 0) = some s ∧
      wfbTxRun ⟨fun _ => 0, fun _ _ _ => 0⟩ s (List.replicate 16 (fun _ => 7, 20)) =
        some (s', blocks) ∧
      blocks.length = 2 ∧ HearsFrames blocks es heard ∧
      (heard.map TxPacket.handed).map PayloadData.sequenceNumber = lossyNumbers ∧
      videoRun (fun _ => 0) (.init fun _ _ => 0) es = some v ∧
      v.written = List.replicate 160 7 := by
  obtain ⟨s, s', blocks, hinit, hrun, hair⟩ := video_over_air (show 1 ≤ 2 by decide) 0 false false
    (fun _ _ => 0) (fun _ _ => 0) ⟨fun _ => 0, fun _ _ _ => 0⟩ (fun _ => 0)
    (List.replicate 16 (fun _ => 7, 20))
  obtain ⟨s₀, hinit₀, hfresh, hheaded⟩ := wfbStreamInitRadio_spec
    (show streamIeeeHeader 0 1 = some (u8aIeeeHeaderData 1) from rfl) false false false fun _ _ => 0
  obtain rfl := Option.some.inj (hinit₀.symm.trans hinit)
  obtain ⟨_, _, hrun₁, hlen⟩ := wfbTxRun_small ⟨fun _ => 0, fun _ _ _ => 0⟩ (fun _ => 7) 16
    hfresh.inv (hfresh.empty _ (by rw [hfresh.currPb]; decide))
  obtain ⟨-, rfl⟩ := Prod.mk.inj (Option.some.inj (hrun₁.symm.trans hrun))
  obtain ⟨_, _, hrun₂, -, hsent⟩ := sent_of_run ⟨fun _ => 0, fun _ _ _ => 0⟩ hfresh
    (List.replicate 16 (fun _ => 7, 20))
  obtain ⟨-, rfl⟩ := Prod.mk.inj (Option.some.inj (hrun₂.symm.trans hrun))
  rename_i blocks
  have htwo : blocks.length = 2 := by
    rw [hlen, hfresh.currPb]
    rfl
  obtain ⟨hblocks, -⟩ := hsent (by omega)
  obtain ⟨hwritten, hlink⟩ := hair (by omega)
  have hdelivery : ∀ x ∈ lossyDelivery, x.1 < 2 ∧ x.2.AlwaysSent := by decide
  obtain ⟨es, heard, hes, hnumbers⟩ := exists_hearsFrames hblocks hwritten (by
    rw [hheaded.phdrLen]
    decide) (l := lossyDelivery) (by
    rw [htwo]
    exact hdelivery)
  obtain ⟨hexpected, hwin⟩ := expectedOutput_lossy blocks hnumbers
  obtain ⟨v, hv, hout⟩ := hlink 1 es heard hes hwin
  rw [hexpected, payloads_first hfresh hblocks htwo hrun] at hout
  exact ⟨s₀, s', blocks, heard, v, es, hinit, hrun, htwo, hes, hnumbers, hv, hout⟩

end Rhex
