import Mathlib
import Rhex.Control

/-!
# Streams of MAVLink messages (`rhex_ground/rhex_control.c`)

A client sends a stream of bytes, and each `recvfrom` returns a part of it. The service takes what
a call returns as one message at fixed offsets; it does not look at its magic, its length or its
checksum, and does not put parts together.

* `controlRun` — a run with what is received and sent.
* `streamCommands` — the commands in a stream of frames.
* `commands_acknowledged` — what is acknowledged when each part holds the fields that are read.
-/

namespace Rhex

open Memory

/-! ## Runs -/

/-- A run of `rhex_control_main`. -/
def controlRun (s : ControlState) : List ControlCycle → Option (List ControlEvent × ControlState)
  | [] => some ([], s)
  | e :: es =>
    (controlStep s e).bind fun (out, s) => (controlRun s es).map fun (out', s) => (out ++ out', s)

/-- What is received from a descriptor. -/
def receivedBy (fd : Int) (trace : List ControlEvent) : List (List UInt8) :=
  trace.filterMap fun
    | .received fd' data => if fd' = fd then some data else none
    | _ => none

/-- The frames that are sent to a descriptor. -/
def sentTo (fd : Int) (trace : List ControlEvent) : List (List UInt8) :=
  trace.filterMap fun
    | .sent fd' frame => if fd' = fd then some frame else none
    | _ => none

/-- The commands that are acknowledged to a descriptor. -/
def acknowledged (fd : Int) (trace : List ControlEvent) : List UInt16 :=
  (sentTo fd trace).map ackedCommand

/-- What is sent to a descriptor is what `parse_msg` answers to the bytes of each receive, with
zeros behind them and the sequence number of the moment. -/
def RepliesTo (fd : Int) (trace : List ControlEvent) : Prop :=
  ∃ seqs : List UInt8, (receivedBy fd trace).length = seqs.length ∧
    sentTo fd trace = (List.zipWith (fun data seq => controlParseMsg (ofList data) seq)
      (receivedBy fd trace) seqs).reduceOption

/-! ## Frames in a stream -/

/-- The checksum of a frame, with the extra byte that belongs to its `msgid`. -/
def frameChecksum (crcExtra : Nat → UInt8) (frame : List UInt8) : UInt16 :=
  crcAccumulate (crcCalculate ((frame.drop 1).take (frame.length - 3)))
    (crcExtra (msgid (ofList frame)))

/-- The frame that begins a stream: it has the magic, is complete and has the right checksum. -/
def frameHead (crcExtra : Nat → UInt8) (stream : List UInt8) : Option (List UInt8) :=
  let len := mavlinkHeaderLen + (stream.getD 1 0).toNat + 2
  let frame := stream.take len
  if stream.head? = some mavlinkStx ∧ frame.length = len ∧
      read16 (ofList frame) (len - 2) = frameChecksum crcExtra frame then some frame
  else none

/-- The command of a frame, if it is one of those that are acknowledged; what a short payload lacks
is zero. -/
def frameCommand (frame : List UInt8) : Option UInt16 :=
  let payload := (frame.drop mavlinkHeaderLen).take (frame.length - mavlinkHeaderLen - 2)
  if msgid (ofList frame) = mavlinkCommandLong ∧ IsPower (read16 (ofList payload) 28) then
    some (read16 (ofList payload) 28)
  else none

/-- The commands of the frames in a stream, after the bytes that are skipped. -/
def streamCommands (crcExtra : Nat → UInt8) : Nat → List UInt8 → List UInt16
  | _, [] => []
  | skip + 1, _ :: stream => streamCommands crcExtra skip stream
  | 0, b :: stream =>
    match frameHead crcExtra (b :: stream) with
    | some frame =>
      (frameCommand frame).toList ++ streamCommands crcExtra (frame.length - 1) stream
    | none => streamCommands crcExtra 0 stream

/-! ## What is acknowledged -/

section

variable {fd : Int}

theorem receivedBy_append (fd : Int) (out out' : List ControlEvent) :
    receivedBy fd (out ++ out') = receivedBy fd out ++ receivedBy fd out' :=
  List.filterMap_append

theorem sentTo_append (fd : Int) (out out' : List ControlEvent) :
    sentTo fd (out ++ out') = sentTo fd out ++ sentTo fd out' :=
  List.filterMap_append

theorem RepliesTo.nil : RepliesTo fd [] := ⟨[], rfl, rfl⟩

theorem RepliesTo.append {out out' : List ControlEvent} (h : RepliesTo fd out)
    (h' : RepliesTo fd out') : RepliesTo fd (out ++ out') := by
  obtain ⟨seqs, hlen, hsent⟩ := h
  obtain ⟨seqs', hlen', hsent'⟩ := h'
  refine ⟨seqs ++ seqs', ?_, ?_⟩
  · rw [receivedBy_append, List.length_append, List.length_append, hlen, hlen']
  · rw [sentTo_append, receivedBy_append, List.zipWith_append hlen, List.reduceOption_append, hsent,
      hsent']

/-- The loop body replies to the client of its slot, whatever the buffer held. -/
theorem serveSlot_replies {e : ControlCycle} {i : Fin 32} {s : ControlState}
    (hwhole : ∀ data ∈ receivedBy fd (serveSlot e i s).1, Whole data) :
    RepliesTo fd (serveSlot e i s).1 := by
  rw [serveSlot] at hwhole ⊢
  split_ifs at hwhole ⊢ with hocc
  · cases hready : e.ready i with
    | none => exact .nil
    | some r =>
      rw [hready] at hwhole
      cases r with
      | failed => exact ⟨[], rfl, rfl⟩
      | data bytes =>
        dsimp only at hwhole ⊢
        by_cases hfd : s.clients i = fd
        · have hdata : Whole (bytes.take sizeofMavlinkMessage) := by
            refine hwhole _ ?_
            cases controlParseMsg _ s.txSeq <;> simp [receivedBy, hfd]
          refine ⟨[s.txSeq], ?_, ?_⟩
          · cases controlParseMsg _ s.txSeq <;> simp [receivedBy, hfd]
          · rw [controlParseMsg_received hdata]
            cases hframe : controlParseMsg (ofList (bytes.take sizeofMavlinkMessage)) s.txSeq with
            | none => simp [receivedBy, sentTo, hfd, hframe]
            | some frame => simp [receivedBy, sentTo, hfd, hframe, List.reduceOption]
        · refine ⟨[], ?_, ?_⟩
          · cases controlParseMsg _ s.txSeq <;> simp [receivedBy, hfd]
          · cases controlParseMsg _ s.txSeq <;> simp [sentTo, hfd, List.reduceOption]
  · exact .nil

theorem serve_replies {e : ControlCycle} {is : List (Fin 32)} {s : ControlState}
    (hwhole : ∀ data ∈ receivedBy fd (serve e is s).1, Whole data) :
    RepliesTo fd (serve e is s).1 := by
  induction is generalizing s with
  | nil => exact .nil
  | cons i is ih =>
    change ∀ data ∈ receivedBy fd ((serveSlot e i s).1 ++ (serve e is (serveSlot e i s).2).1),
      Whole data at hwhole
    rw [receivedBy_append, List.forall_mem_append] at hwhole
    exact (serveSlot_replies hwhole.1).append (ih hwhole.2)

theorem controlStep_replies {e : ControlCycle} {s s' : ControlState} {out : List ControlEvent}
    (hstep : controlStep s e = some (out, s')) (hwhole : ∀ data ∈ receivedBy fd out, Whole data) :
    RepliesTo fd out := by
  rw [controlStep] at hstep
  split_ifs at hstep with hc
  obtain ⟨s₁, -, hout⟩ := Option.map_eq_some_iff.mp hstep
  rw [show out = (serve e (List.finRange 32) s₁).1 from (congrArg Prod.fst hout).symm] at hwhole ⊢
  exact serve_replies hwhole

/-- **A run** replies to each client all of whose receives hold what is read of them. -/
theorem controlRun_replies {cycles : List ControlCycle} {s s' : ControlState}
    {trace : List ControlEvent} (hrun : controlRun s cycles = some (trace, s'))
    (hwhole : ∀ data ∈ receivedBy fd trace, Whole data) : RepliesTo fd trace := by
  induction cycles generalizing s trace with
  | nil =>
    cases hrun
    exact .nil
  | cons e es ih =>
    obtain ⟨⟨out, s₁⟩, hstep, hrest⟩ := Option.bind_eq_some_iff.mp hrun
    obtain ⟨⟨out', s₂⟩, hrun', heq⟩ := Option.map_eq_some_iff.mp hrest
    cases heq
    rw [receivedBy_append, List.forall_mem_append] at hwhole
    exact (controlStep_replies hstep hwhole.1).append (ih hrun' hwhole.2)

/-- The replies acknowledge the commands at their fixed offsets. -/
theorem RepliesTo.acknowledged {trace : List ControlEvent} (h : RepliesTo fd trace) :
    acknowledged fd trace = (receivedBy fd trace).filterMap powerCommand := by
  obtain ⟨seqs, hlen, hsent⟩ := h
  rw [Rhex.acknowledged, hsent]
  generalize receivedBy fd trace = received at hlen
  clear hsent
  induction received generalizing seqs with
  | nil => rfl
  | cons data received ih =>
    cases seqs with
    | nil => simp at hlen
    | cons seq seqs =>
      have hcommand := ackedCommand_controlParseMsg data seq
      have hih := ih seqs (Nat.succ.inj hlen)
      rw [List.zipWith_cons_cons, List.filterMap_cons, ← hcommand]
      cases controlParseMsg (ofList data) seq with
      | none => exact hih
      | some frame => exact congrArg (ackedCommand frame :: ·) hih

end

/-! ## Streams of whole frames -/

section

variable {crcExtra : Nat → UInt8} {frame : List UInt8}

theorem length_of_frameHead (h : frameHead crcExtra frame = some frame) :
    frame.length = mavlinkHeaderLen + (frame.getD 1 0).toNat + 2 := by
  rw [frameHead] at h
  split_ifs at h with hframe
  have hlen := hframe.2.1
  rw [Option.some.inj h] at hlen
  exact hlen

/-- A frame is found in front of the rest of its stream. -/
theorem frameHead_append (h : frameHead crcExtra frame = some frame) (rest : List UInt8) :
    frameHead crcExtra (frame ++ rest) = some frame := by
  have hlen := length_of_frameHead h
  have hsecond : (frame ++ rest).getD 1 0 = frame.getD 1 0 := by
    exact List.getD_append _ _ _ _ (by rw [hlen, mavlinkHeaderLen]; omega)
  have hhead : (frame ++ rest).head? = frame.head? := by
    cases frame with
    | nil => simp at hlen
    | cons b frame => rfl
  have htake : (frame ++ rest).take frame.length = frame := List.take_left
  rw [frameHead, List.take_of_length_le hlen.le] at h
  rw [frameHead, hsecond, hhead, ← hlen, htake]
  rw [← hlen] at h
  exact h

theorem streamCommands_skip (l rest : List UInt8) :
    streamCommands crcExtra l.length (l ++ rest) = streamCommands crcExtra 0 rest := by
  induction l with
  | nil => rfl
  | cons b l ih => exact ih

/-- The commands of a stream that consists of frames. -/
theorem streamCommands_flatten {frames : List (List UInt8)}
    (h : ∀ frame ∈ frames, frameHead crcExtra frame = some frame) :
    streamCommands crcExtra 0 frames.flatten = frames.filterMap frameCommand := by
  induction frames with
  | nil => rfl
  | cons frame frames ih =>
    have hframe := frameHead_append (h frame List.mem_cons_self) frames.flatten
    have hrest := ih fun f hf => h f (List.mem_cons_of_mem _ hf)
    have hlen := length_of_frameHead (h frame List.mem_cons_self)
    cases frame with
    | nil => simp at hlen
    | cons b frame =>
      rw [List.flatten_cons, List.cons_append, streamCommands]
      rw [List.cons_append] at hframe
      rw [hframe]
      dsimp only
      rw [List.length_cons, Nat.add_sub_cancel, streamCommands_skip, hrest, List.filterMap_cons]
      cases frameCommand (b :: frame) <;> rfl

/-- In a frame that holds all that is read, `parse_msg` looks for the command where it is. -/
theorem powerCommand_frame (hwhole : Whole frame) :
    powerCommand frame = frameCommand frame := by
  rw [powerCommand, frameCommand]
  by_cases hmsgid : msgid (ofList frame) = mavlinkCommandLong
  · have hlong : mavlinkHeaderLen + 32 ≤ frame.length :=
      hwhole.resolve_right fun hno => hno.2 hmsgid
    simp only [mavlinkHeaderLen] at hlong
    have hbyte {k : Nat} (hk : k < 30) :
        ofList ((frame.drop mavlinkHeaderLen).take (frame.length - mavlinkHeaderLen - 2)) k =
          ofList frame (mavlinkHeaderLen + k) := by
      have hk' : k < frame.length - mavlinkHeaderLen - 2 := by
        simp only [mavlinkHeaderLen]
        omega
      rw [ofList, ofList, List.getD_eq_getElem?_getD, List.getD_eq_getElem?_getD,
        List.getElem?_take_of_lt hk', List.getElem?_drop]
    have hcommand : read16 (ofList ((frame.drop mavlinkHeaderLen).take
        (frame.length - mavlinkHeaderLen - 2))) 28 = longCommand (ofList frame) := by
      rw [longCommand, read16, read16, hbyte (by decide), hbyte (by decide)]
    rw [hcommand]
  · rw [if_neg fun hno => hmsgid hno.1, if_neg fun hno => hmsgid hno.1]

theorem streamCommands_of_not_mem {stream : List UInt8} (h : mavlinkStx ∉ stream) :
    streamCommands crcExtra 0 stream = [] := by
  induction stream with
  | nil => rfl
  | cons b stream ih =>
    obtain ⟨hb, hstream⟩ := not_or.mp (List.mem_cons.not.mp h)
    have hnone : frameHead crcExtra (b :: stream) = none :=
      if_neg fun hframe => hb (Option.some.inj hframe.1).symm
    rw [streamCommands, hnone]
    exact ih hstream

end

/-- **Commands.** If each receive from a client holds all that is read of it, `parse_msg` replies to
the bytes of each receive alone, and the commands that are acknowledged to the client are those at
their fixed offsets, one for each receive. If each receive is one frame, they are the commands of
the frames in the stream. The cycles may begin in any state, with a new connection, too. -/
theorem commands_acknowledged {fd : Int} {s s' : ControlState} {cycles : List ControlCycle}
    {trace : List ControlEvent} (hrun : controlRun s cycles = some (trace, s'))
    (hwhole : ∀ data ∈ receivedBy fd trace, Whole data) :
    RepliesTo fd trace ∧ acknowledged fd trace = (receivedBy fd trace).filterMap powerCommand ∧
      ∀ crcExtra, (∀ data ∈ receivedBy fd trace, frameHead crcExtra data = some data) →
        acknowledged fd trace = streamCommands crcExtra 0 (receivedBy fd trace).flatten := by
  have hreplies := controlRun_replies hrun hwhole
  have hacked := hreplies.acknowledged
  refine ⟨hreplies, hacked, fun crcExtra hframes => ?_⟩
  rw [hacked, streamCommands_flatten hframes]
  exact List.filterMap_congr fun data hdata => powerCommand_frame (hwhole data hdata)

/-- `accept` returns `c`, and these bytes are received from the first slot. -/
def cycleReceives (c : Int) (bytes : List UInt8) : ControlCycle where
  c := c
  ready i := if i.val = 0 then some (.data bytes) else none
  stale _ _ := 0

/-- `COMMAND_LONG` with the command to shut down. -/
def frameShutdown : List UInt8 :=
  [253, 33, 0, 0, 0, 1, 1, 76, 0, 0] ++ (List.replicate 28 0 ++ [0x88, 0x2C, 1, 1, 0, 0x50, 0x34])

/-- The command to reboot, the next frame of the stream. -/
def frameReboot : List UInt8 :=
  [253, 33, 0, 0, 1, 1, 1, 76, 0, 0] ++ (List.replicate 28 0 ++ [0x89, 0x2C, 1, 1, 0, 0x41, 0x3E])

/-- A second client connects and closes; its end of stream is received beside a frame of the
first. -/
def cycleCloses : ControlCycle where
  c := 5
  ready i :=
    if i.val = 0 then some (.data frameReboot)
    else if i.val = 1 then some (.data []) else none
  stale _ _ := 0

/-- What the two cycles do. -/
def traceCloses : List ControlEvent :=
  [.received 4 frameShutdown, .sent 4 (mavlinkAckMsg 11400 1 1 1 0), .received 4 frameReboot,
    .sent 4 (mavlinkAckMsg 11401 1 1 1 1), .received 5 []]

theorem commands_acknowledged_closes : ∃ s',
    controlRun (.start fun _ => 0) [cycleReceives 4 frameShutdown, cycleCloses] =
        some (traceCloses, s') ∧
      RepliesTo 4 traceCloses ∧
      acknowledged 4 traceCloses =
        streamCommands (fun _ => 152) 0 (frameShutdown ++ frameReboot) ∧
      acknowledged 4 traceCloses = [11400, 11401] := by
  have htrace : (controlRun (.start fun _ => 0)
      [cycleReceives 4 frameShutdown, cycleCloses]).map Prod.fst = some traceCloses := by
    decide +kernel
  obtain ⟨⟨trace, s'⟩, hrun, htrace⟩ := Option.map_eq_some_iff.mp htrace
  obtain rfl : trace = traceCloses := htrace
  have hreceived : receivedBy 4 traceCloses = [frameShutdown, frameReboot] := by decide +kernel
  have hwhole : ∀ data ∈ receivedBy 4 traceCloses, Whole data := by
    rw [hreceived]
    decide
  obtain ⟨hreplies, -, hframes⟩ := commands_acknowledged hrun hwhole
  have hstream := hframes (fun _ => 152) (by
    rw [hreceived]
    decide +kernel)
  rw [hreceived] at hstream
  exact ⟨s', hrun, hreplies, hstream.trans (by decide +kernel), by decide +kernel⟩

/-- The frame without its magic and checksum. -/
def bytesShutdown : List UInt8 := List.replicate 7 0 ++ (frameShutdown.drop 7).take 35

/-- A command is acknowledged though the stream holds no frame; of two frames that are received at
once one is acknowledged, and none when a frame is received in two parts. -/
theorem commands_segmented :
    (¬∃ crcExtra, ∀ cycles trace s',
      controlRun (.start fun _ => 0) cycles = some (trace, s') → ∀ fd,
        acknowledged fd trace = streamCommands crcExtra 0 (receivedBy fd trace).flatten) ∧
      (controlRun (.start fun _ => 0) [cycleReceives 4 (frameShutdown ++ frameShutdown)]).map
        (fun r => acknowledged 4 r.1) = some [11400] ∧
      (controlRun (.start fun _ => 0) [cycleReceives 4 (frameShutdown.take 20),
        cycleReceives (-1) (frameShutdown.drop 20)]).map (fun r => acknowledged 4 r.1) = some [] ∧
      streamCommands (fun _ => 152) 0 (frameShutdown ++ frameShutdown) = [11400, 11400] := by
  refine ⟨?_, by decide +kernel, by decide +kernel, by decide +kernel⟩
  rintro ⟨crcExtra, h⟩
  have htrace : (controlRun (.start fun _ => 0) [cycleReceives 4 bytesShutdown]).map Prod.fst =
      some [.received 4 bytesShutdown, .sent 4 (mavlinkAckMsg 11400 1 1 1 0)] := by
    decide +kernel
  obtain ⟨⟨trace, s'⟩, hrun, rfl⟩ := Option.map_eq_some_iff.mp htrace
  have hacked := h _ _ s' hrun 4
  rw [streamCommands_of_not_mem (by decide +kernel)] at hacked
  exact absurd hacked (by decide +kernel)

end Rhex
