import Mathlib
import Rhex.Lib.Run
import Rhex.Log

/-!
# A service and the printing of its log

The main process may print between any two fragments that the service publishes.

* `logStep` — one step of the service, or one call of `log_print`.
* `LogBuffer.Stuck` — a log whose printing does not end.
* `log_tail_behind` — when every call prints just what is unread.
-/

namespace Rhex

open Memory

/-! ## Runs -/

/-- A service with its log: the fragments that the call of `log_put_record` in progress has not
published yet, and those published since the last call of `log_print`. -/
structure LogRun where
  service : LogService
  writing : List LogFragment
  unread : List LogFragment

/-- The steps of the service, and the calls of `log_print`. -/
inductive LogEvent where
  | put (m : LogMessage)
  | publish
  | print

/-- After `log_create`. -/
def LogRun.start (records : Fin logBufferSize → LogRecord) (tmp : Buf) : LogRun :=
  ⟨⟨logCreate records, tmp⟩, [], []⟩

/-- One step. There is none with which more than 63 fragments would be unread, and none after a
call of `log_print` that does not return. -/
def logStep (out : LogOutput) (r : LogRun) : LogEvent → Option LogRun
  | .put m =>
    match r.writing with
    | _ :: _ => none
    | [] =>
      let (tmpMsgBuff, parts) := r.service.format m
      some { r with
        service := { r.service with tmpMsgBuff }
        writing := parts }
  | .publish =>
    match r.writing with
    | [] => none
    | f :: rest =>
      if r.unread.length < 63 then
        some
          { service := { r.service with log := r.service.log.publish f }
            writing := rest
            unread := r.unread ++ [f] }
      else none
  | .print =>
    (logPrint out logBufferSize r.service.log).map fun (log, _) =>
      { r with
        service := { r.service with log }
        unread := [] }

/-- A call of `log_print` returns, prints the fragments that are unread, each once, and leaves none
of them. -/
def PrintsUnread (out : LogOutput) (r : LogRun) : LogEvent → Prop
  | .print => ∃ fuel log calls, logPrint out fuel r.service.log = some (log, calls) ∧
      calls.filterMap StderrCall.fragment? = r.unread.map LogFragment.text ∧ log.tail = log.head
  | _ => True

/-- When `log_print` is called, the last unread fragment ends its message. -/
def PrintClosed (r : LogRun) : LogEvent → Prop
  | .print => Closed r.unread
  | _ => True

/-- **What holds between two steps.** -/
structure LogRun.Holds (r : LogRun) : Prop where
  unread : r.service.log.Unread r.unread
  writing : ∀ f ∈ r.writing, f.text.length ≤ logItemMaxmsg

theorem LogRun.start_holds (records : Fin logBufferSize → LogRecord) (tmp : Buf) :
    (LogRun.start records tmp).Holds :=
  ⟨.nil rfl, fun _ hf => absurd hf List.not_mem_nil⟩

/-- A call of `log_put_record` is a `put` and one `publish` for each fragment. -/
theorem logRun_put (out : LogOutput) {r : LogRun} (hidle : r.writing = []) (m : LogMessage)
    (hroom : r.unread.length + (r.service.format m).2.length ≤ 63) :
    (LogEvent.put m :: List.replicate (r.service.format m).2.length .publish).foldlM
        (logStep out) r =
      some ⟨logPutRecord r.service m, [], r.unread ++ (r.service.format m).2⟩ := by
  have hpublish : ∀ (parts : List LogFragment) (log : LogBuffer) (tmp : Buf)
      (unread : List LogFragment), unread.length + parts.length ≤ 63 →
      (List.replicate parts.length LogEvent.publish).foldlM (logStep out)
          ⟨⟨log, tmp⟩, parts, unread⟩ =
        some ⟨⟨parts.foldl LogBuffer.publish log, tmp⟩, [], unread ++ parts⟩ := by
    intro parts
    induction parts with
    | nil => simp
    | cons f parts ih =>
      intro log tmp unread hlen
      rw [List.length_cons] at hlen
      have hlt : unread.length < 63 := by omega
      rw [List.length_cons, List.replicate_succ, List.foldlM_cons]
      simp only [logStep, if_pos hlt, Option.bind_eq_bind, Option.bind_some]
      rw [ih _ _ _ (by rw [List.length_append, List.length_singleton]; omega),
        List.append_assoc, List.foldl_cons, List.singleton_append]
  rw [List.foldlM_cons]
  simp only [logStep, hidle, Option.bind_eq_bind, Option.bind_some]
  exact hpublish _ _ _ _ hroom

/-! ## A log that is printed without end -/

/-- Something is unread, and the record before the head does not end its message. -/
structure LogBuffer.Stuck (log : LogBuffer) : Prop where
  head_ne : log.head ≠ log.tail
  more : ∀ place, place + 1 = log.head → (log.records place).logContinue ≠ logItemEnd

namespace LogBuffer.Stuck

variable {log log' : LogBuffer} {fuel : Nat} {calls : List StderrCall}

/-- The inner loop ends with the tail at the head and then goes beyond it. -/
theorem text (h : log.Stuck) (hrun : logText fuel log = some (log', calls)) :
    log'.advance.Stuck := by
  induction fuel generalizing log calls with
  | zero => cases hrun
  | succ fuel ih =>
    simp only [logText] at hrun
    split_ifs at hrun with hend hhead
    · obtain ⟨rfl, -⟩ := Prod.mk.inj (Option.some.inj hrun)
      exact ⟨fun heq => h.more _ heq.symm hend, h.more⟩
    · obtain ⟨⟨log₁, rest⟩, hrec, heq⟩ := Option.map_eq_some_iff.mp hrun
      obtain ⟨rfl, -⟩ := Prod.mk.inj heq
      have hnext : log.advance.Stuck := ⟨hhead, h.more⟩
      exact ih hnext hrec
    · obtain ⟨rfl, -⟩ := Prod.mk.inj (Option.some.inj hrun)
      refine ⟨?_, h.more⟩
      have hne : ∀ place : Fin logBufferSize, place ≠ place + 1 := by decide
      have htail : log.head = log.advance.tail := not_not.mp hhead
      change log.head ≠ log.advance.tail + 1
      rw [← htail]
      exact hne log.head

theorem messages (h : log.Stuck) (out : LogOutput) (fuel : Nat) :
    logMessages out fuel log = none := by
  induction fuel generalizing log with
  | zero => rfl
  | succ fuel ih =>
    cases hrun : logText (fuel + 1) log with
    | none => simp only [logMessages, hrun, Option.bind_eq_bind, Option.bind_none]
    | some result =>
      obtain ⟨log', text⟩ := result
      have hstuck := h.text hrun
      simp only [logMessages, hrun, Option.bind_eq_bind, Option.bind_some,
        if_pos hstuck.head_ne, ih hstuck, Option.map_none]

theorem print (h : log.Stuck) (out : LogOutput) (fuel : Nat) : logPrint out fuel log = none := by
  rw [logPrint, if_neg h.head_ne]
  exact h.messages out fuel

end LogBuffer.Stuck

theorem stuck_of_not_closed {log : LogBuffer} {l : List LogFragment} (h : log.Unread l)
    (hopen : ¬Closed l) : log.Stuck := by
  obtain ⟨f, hf, hmore⟩ : ∃ f, l.getLast? = some f ∧ f.logContinue ≠ logItemEnd := by
    simpa [Closed] using hopen
  obtain ⟨l, rfl⟩ := List.getLast?_eq_some_iff.mp hf
  obtain ⟨place, hplace, hitem⟩ := Ring.Queued.last h
  refine ⟨fun heq => ?_, fun place' hplace' => ?_⟩
  · exact absurd (h.head_eq_tail_iff.mp heq) (by simp)
  · obtain rfl : place' = place := add_right_cancel (hplace'.trans hplace.symm)
    rw [← hitem] at hmore
    exact hmore

/-! ## When printing ends -/

/-- Each fragment is printed once. -/
theorem fragmentCalls_texts (out : LogOutput) (first : Bool) (l : List LogFragment) :
    (fragmentCalls out first l).filterMap StderrCall.fragment? = l.map LogFragment.text := by
  have hbegin : ∀ level, (out.msgBegin level).filterMap StderrCall.fragment? = [] := by
    intro level
    unfold LogOutput.msgBegin
    split_ifs <;> rfl
  have hend : out.msgEnd.filterMap StderrCall.fragment? = [] := by
    unfold LogOutput.msgEnd
    split_ifs <;> rfl
  induction l generalizing first with
  | nil => rfl
  | cons f l ih =>
    have hrest : (if f.logContinue = logItemEnd then out.msgEnd ++ fragmentCalls out true l
        else fragmentCalls out false l).filterMap StderrCall.fragment? =
          l.map LogFragment.text := by
      split_ifs
      · rw [List.filterMap_append, hend, List.nil_append, ih]
      · exact ih false
    rw [fragmentCalls, List.filterMap_append, List.filterMap_cons, hrest]
    cases first
    · rfl
    · simp [List.filterMap_cons, StderrCall.fragment?, LogOutput.prefixName, hbegin]

namespace LogRun.Holds

variable {out : LogOutput} {r r' : LogRun} {e : LogEvent}

theorem prints_iff (h : r.Holds) (e : LogEvent) : PrintsUnread out r e ↔ PrintClosed r e := by
  cases e with
  | put => exact Iff.rfl
  | publish => exact Iff.rfl
  | print =>
    constructor
    · rintro ⟨fuel, log, calls, hrun, -⟩
      by_contra hopen
      rw [(stuck_of_not_closed h.unread hopen).print out fuel] at hrun
      cases hrun
    · intro hclosed
      obtain ⟨log, hrun, hend⟩ := logPrint_unread out h.unread hclosed
      exact ⟨logBufferSize, log, _, hrun _ le_rfl, fragmentCalls_texts out true _, hend.symm⟩

/-- **One step.** -/
theorem step (h : r.Holds) (hclosed : PrintClosed r e) (hstep : logStep out r e = some r') :
    r'.Holds := by
  cases e with
  | put m =>
    simp only [logStep] at hstep
    split at hstep
    · cases hstep
    · obtain rfl := Option.some.inj hstep
      exact ⟨h.unread, length_text_fragments _ _ _ _ _⟩
  | publish =>
    simp only [logStep] at hstep
    split at hstep
    · cases hstep
    · rename_i f rest hwriting
      split_ifs at hstep with hroom
      obtain rfl := Option.some.inj hstep
      have hlen : ∀ g ∈ f :: rest, g.text.length ≤ logItemMaxmsg := hwriting ▸ h.writing
      refine ⟨h.unread.publish (hlen f List.mem_cons_self) (Nat.succ_lt_succ hroom), ?_⟩
      exact fun g hg => hlen g (List.mem_cons_of_mem f hg)
  | print =>
    obtain ⟨log, hrun, hend⟩ := logPrint_unread out h.unread hclosed
    rw [logStep, hrun _ le_rfl] at hstep
    obtain rfl := Option.some.inj hstep
    exact ⟨.nil hend, h.writing⟩

end LogRun.Holds

/-- **The tail.** In a run of a service and the printing of its log, every call of `log_print`
prints just what is unread, exactly if the last unread fragment ends its message whenever it is
called. Otherwise it does not return. -/
theorem log_tail_behind (out : LogOutput) (records : Fin logBufferSize → LogRecord) (tmp : Buf)
    (events : List LogEvent) :
    Run.Throughout (logStep out) (PrintsUnread out) (.start records tmp) events ↔
      Run.Throughout (logStep out) PrintClosed (.start records tmp) events :=
  Run.Throughout.congr_while (I := LogRun.Holds)
    (fun _ _ _ _ h hclosed hstep => h.step hclosed hstep) (fun _ e _ h => h.prints_iff e)
    (LogRun.start_holds records tmp)

/-- A message of 33 bytes, printed after its first fragment. -/
theorem log_tail_ahead : ¬Run.Throughout (logStep ⟨[], false⟩) (PrintsUnread ⟨[], false⟩)
    (.start (fun _ => ⟨.dbg, 0, 0, 0, fun _ => 0⟩) fun _ => 0)
    [.put ⟨.inf, 0, List.replicate 33 65⟩, .publish, .print] := by
  intro h
  let log := logCreate fun _ => ⟨.dbg, 0, 0, 0, fun _ => 0⟩
  let tmp := vsnprintf (fun _ => 0) msgBuffLen (List.replicate 33 65)
  let f : LogFragment := ⟨.inf, 0, logItemContinue, slice tmp 0 32⟩
  have hparts : fragments .inf 0 tmp 0 33 = f :: fragments .inf 0 tmp 32 33 := by
    rw [fragments, if_pos (by decide)]
    rfl
  have hpublish : logStep ⟨[], false⟩ ⟨⟨log, tmp⟩, fragments .inf 0 tmp 0 33, []⟩ .publish =
      some ⟨⟨log.publish f, tmp⟩, fragments .inf 0 tmp 32 33, [f]⟩ := by
    rw [hparts]
    rfl
  have hunread : (log.publish f).Unread [f] :=
    LogBuffer.Unread.publish (.nil rfl) (length_slice _ _ _).le (by decide)
  have hopen : ¬Closed [f] := fun hclosed => absurd (hclosed f rfl) (by decide)
  obtain ⟨fuel, log', calls, hrun, -⟩ := ((h.2 _ rfl).2 _ hpublish).1
  rw [(stuck_of_not_closed hunread hopen).print ⟨[], false⟩ fuel] at hrun
  cases hrun

end Rhex
