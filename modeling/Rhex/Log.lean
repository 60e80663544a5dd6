import Mathlib
import Rhex.Lib.Memory
import Rhex.Lib.Ring

/-!
# The log of a service (`liblog`)

A service puts its messages into a ring of 64 records, in fragments of at most 32 bytes. The main
process takes them out and prints them.

* `logPutRecord`, `logPrint` — the functions of `put_record.c` and `print.c`.
* `LogBuffer.Unread` — the fragments between tail and head.
* `log_delivers` — what is printed after some messages were put.

`stderr` is a list of calls: of `fwrite`, which print the fragments, and of the others.
-/

namespace Rhex

open Memory

/-! ## Data -/

/-- `LOG_ITEM_MAXMSG`. -/
@[simp] abbrev logItemMaxmsg : Nat := 32

/-- `LOG_BUFFER_SIZE`. -/
@[simp] abbrev logBufferSize : Nat := 64

/-- `MSG_BUFF_LEN`. -/
@[simp] abbrev msgBuffLen : Nat := 512

/-- `LOG_ITEM_END`. -/
def logItemEnd : UInt8 := 0

/-- `LOG_ITEM_CONTINUE`. -/
def logItemContinue : UInt8 := 1

/-- `enum log_level`. -/
inductive LogLevel where
  | dbg | inf | warn | err | exc
deriving DecidableEq

/-- `struct log_record_t`. -/
structure LogRecord where
  level : LogLevel
  date : UInt64
  msgLen : UInt8
  logContinue : UInt8
  msg : Buf

/-- `log_buffer_t`. -/
structure LogBuffer where
  head : Fin logBufferSize
  tail : Fin logBufferSize
  records : Fin logBufferSize → LogRecord

/-- What `log_create` leaves: head and tail are `LOG_BUFFER_SIZE - 2`, and the records are what the
shared memory holds. -/
def logCreate (records : Fin logBufferSize → LogRecord) : LogBuffer := ⟨62, 62, records⟩

/-- What `log_put_record` writes to a record. -/
structure LogFragment where
  level : LogLevel
  date : UInt64
  logContinue : UInt8
  text : List UInt8
deriving DecidableEq

/-- A message: its level, the time and the formatted text. -/
structure LogMessage where
  level : LogLevel
  date : UInt64
  text : List UInt8
deriving DecidableEq

/-- The log of a service, and its static `tmp_msg_buff`. -/
structure LogService where
  log : LogBuffer
  tmpMsgBuff : Buf

/-! ## Putting -/

/-- What `vsnprintf` leaves in a buffer of `size` bytes. Its result is the length of the text. -/
def vsnprintf (buff : Buf) (size : Nat) (text : List UInt8) : Buf :=
  memcpy buff 0 (text.take (size - 1) ++ [0])

/-- A fragment is written to the record at the head, and the head moves on. -/
def LogBuffer.publish (log : LogBuffer) (f : LogFragment) : LogBuffer :=
  let record := log.records log.head
  { log with
    records := Function.update log.records log.head
      { level := f.level
        date := f.date
        msgLen := .ofNat f.text.length
        logContinue := f.logContinue
        msg := memcpy record.msg 0 f.text }
    head := log.head + 1 }

/-- The fragments of the bytes from `offset` on, as the loop of `log_put_record` makes them. -/
def fragments (level : LogLevel) (date : UInt64) (tmp : Buf) (offset len : Nat) :
    List LogFragment :=
  if len - offset > logItemMaxmsg then
    ⟨level, date, logItemContinue, slice tmp offset logItemMaxmsg⟩ ::
      fragments level date tmp (offset + logItemMaxmsg) len
  else [⟨level, date, logItemEnd, slice tmp offset (len - offset)⟩]
termination_by len - offset

/-- The buffer and the fragments of a message; `len` has 32 bits. -/
def LogService.format (s : LogService) (m : LogMessage) : Buf × List LogFragment :=
  let tmp := vsnprintf s.tmpMsgBuff msgBuffLen m.text
  (tmp, fragments m.level m.date tmp 0 (UInt32.ofNat m.text.length).toNat)

/-- `log_put_record`. -/
def logPutRecord (s : LogService) (m : LogMessage) : LogService :=
  let (tmp, parts) := s.format m
  ⟨parts.foldl LogBuffer.publish s.log, tmp⟩

/-! ## Printing -/

/-- A call on `stderr`: `fwrite` of a fragment, or one of the others. -/
inductive StderrCall where
  | fwrite (text : List UInt8)
  | put (text : List UInt8)
deriving DecidableEq

def StderrCall.bytes : StderrCall → List UInt8
  | fwrite text => text
  | put text => text

/-- The text of an `fwrite`. -/
def StderrCall.fragment? : StderrCall → Option (List UInt8)
  | fwrite text => some text
  | put _ => none

/-- The bytes of a string of the program. -/
def cString (s : String) : List UInt8 := s.toUTF8.toList

/-- `levels[level].color`. -/
def LogLevel.color : LogLevel → List UInt8
  | dbg => cString "\x1b[37m"
  | inf => cString "\x1b[32m"
  | warn => cString "\x1b[33m"
  | err | exc => cString "\x1b[31m"

/-- `levels[level].msg`. -/
def LogLevel.msg : LogLevel → List UInt8
  | dbg => cString "dbg"
  | inf => cString "inf"
  | warn => cString "wrn"
  | err => cString "err"
  | exc => cString "exc"

/-- Where a log is printed: the name of the service, and whether `stderr` is a terminal. -/
structure LogOutput where
  name : List UInt8
  tty : Bool

namespace LogOutput

/-- `msg_begin`. -/
def msgBegin (out : LogOutput) (level : LogLevel) : List StderrCall :=
  (if out.tty then [.put level.color] else []) ++ [.put (level.msg ++ cString ": ")]

/-- `msg_end`; `PR_RES` ends the colour. -/
def msgEnd (out : LogOutput) : List StderrCall :=
  (if out.tty then [.put (cString "\x1b[0m")] else []) ++ [.put (cString "\n")]

/-- The name in ten columns. -/
def prefixName (out : LogOutput) : StderrCall :=
  .put (cString "[" ++ List.replicate (10 - out.name.length) 32 ++ out.name ++ cString " ] ")

end LogOutput

/-- The text that `fwrite` prints of a record. -/
def LogRecord.text (record : LogRecord) : List UInt8 := slice record.msg 0 record.msgLen.toNat

/-- The tail moves on. -/
def LogBuffer.advance (log : LogBuffer) : LogBuffer := { log with tail := log.tail + 1 }

/-- The inner loop of `log_print`; there is no result if it needs more rounds than `fuel`. -/
def logText : Nat → LogBuffer → Option (LogBuffer × List StderrCall)
  | 0, _ => none
  | fuel + 1, log =>
    let record := log.records log.tail
    if record.logContinue = logItemEnd then some (log, [.fwrite record.text])
    else if log.head ≠ log.advance.tail then
      (logText fuel log.advance).map fun (log, calls) => (log, .fwrite record.text :: calls)
    else some (log.advance, [.fwrite record.text])

/-- The outer loop of `log_print`. -/
def logMessages (out : LogOutput) : Nat → LogBuffer → Option (LogBuffer × List StderrCall)
  | 0, _ => none
  | fuel + 1, log => do
    let level := (log.records log.tail).level
    let (log, text) ← logText (fuel + 1) log
    let log := log.advance
    let calls := out.prefixName :: out.msgBegin level ++ text ++ out.msgEnd
    if log.head ≠ log.tail then
      (logMessages out fuel log).map fun (log, rest) => (log, calls ++ rest)
    else some (log, calls)

/-- `log_print` of a log. -/
def logPrint (out : LogOutput) (fuel : Nat) (log : LogBuffer) :
    Option (LogBuffer × List StderrCall) :=
  if log.head = log.tail then some (log, []) else logMessages out fuel log

/-! ## Fragments -/

/-- What a record holds. -/
def LogRecord.fragment (record : LogRecord) : LogFragment :=
  ⟨record.level, record.date, record.logContinue, record.text⟩

/-- The fragments that are in the ring and not yet printed, the oldest first. -/
def LogBuffer.Unread (log : LogBuffer) (l : List LogFragment) : Prop :=
  Ring.Queued log.head log.tail (fun i => (log.records i).fragment) l

namespace LogBuffer.Unread

variable {log : LogBuffer} {l : List LogFragment} {f : LogFragment}

theorem nil (h : log.head = log.tail) : log.Unread [] := by
  rw [Unread, h]
  exact .nil _ _

theorem fragment_eq (h : log.Unread (f :: l)) : (log.records log.tail).fragment = f := h.first

theorem advance (h : log.Unread (f :: l)) : log.advance.Unread l := h.pop

theorem head_eq_tail_iff (h : log.Unread l) : log.head = log.tail ↔ l = [] :=
  Ring.Queued.head_eq_tail_iff h

/-- A fragment that fits into a record is read back from it. -/
theorem publish (h : log.Unread l) (hlen : f.text.length ≤ logItemMaxmsg)
    (hroom : l.length + 1 < logBufferSize) : (log.publish f).Unread (l ++ [f]) := by
  simp only [logItemMaxmsg] at hlen
  have hitems : (fun i => ((log.publish f).records i).fragment) =
      Function.update (fun i => (log.records i).fragment) log.head f := by
    funext i
    by_cases hi : i = log.head
    · subst hi
      have hmsgLen : (UInt8.ofNat f.text.length).toNat = f.text.length := by
        rw [UInt8.toNat_ofNat']
        omega
      simp only [LogBuffer.publish, Function.update_self, LogRecord.fragment, LogRecord.text,
        hmsgLen, slice_memcpy]
    · simp only [LogBuffer.publish, Function.update_of_ne hi]
  rw [Unread, hitems]
  exact Ring.Queued.push h hroom f

/-- Fragments are put one after the other. -/
theorem publish_all (h : log.Unread l) {parts : List LogFragment}
    (hlen : ∀ f ∈ parts, f.text.length ≤ logItemMaxmsg)
    (hroom : l.length + parts.length < logBufferSize) :
    (parts.foldl LogBuffer.publish log).Unread (l ++ parts) := by
  induction parts generalizing log l with
  | nil => simpa using h
  | cons f parts ih =>
    rw [List.length_cons] at hroom
    rw [List.foldl_cons, List.append_cons]
    refine ih (h.publish (hlen f List.mem_cons_self) (by omega))
      (fun g hg => hlen g (List.mem_cons_of_mem f hg)) ?_
    rw [List.length_append, List.length_singleton]
    omega

end LogBuffer.Unread

section

variable (level : LogLevel) (date : UInt64) (tmp : Buf) (offset len : Nat)

theorem length_text_fragments :
    ∀ f ∈ fragments level date tmp offset len, f.text.length ≤ logItemMaxmsg := by
  fun_induction fragments level date tmp offset len with
  | case1 offset hmore ih =>
    intro f hf
    rcases List.mem_cons.mp hf with rfl | hf
    · simp
    · exact ih f hf
  | case2 offset hlast =>
    intro f hf
    obtain rfl := List.mem_singleton.mp hf
    simpa using hlast

theorem length_fragments : (fragments level date tmp offset len).length =
    max 1 ((len - offset + 31) / logItemMaxmsg) := by
  fun_induction fragments level date tmp offset len with
  | case1 offset hmore ih =>
    simp only [logItemMaxmsg, List.length_cons] at *
    omega
  | case2 offset hlast =>
    simp only [logItemMaxmsg, List.length_singleton] at *
    omega

theorem flatMap_text_fragments :
    (fragments level date tmp offset len).flatMap LogFragment.text =
      slice tmp offset (len - offset) := by
  fun_induction fragments level date tmp offset len with
  | case1 offset hmore ih =>
    simp only [logItemMaxmsg] at *
    rw [List.flatMap_cons, ih, ← slice_add]
    congr 1
    omega
  | case2 offset hlast => simp

end

/-! ## Printing what is unread -/

/-- The last fragment ends its message. -/
def Closed (l : List LogFragment) : Prop := ∀ f ∈ l.getLast?, f.logContinue = logItemEnd

instance (l : List LogFragment) : Decidable (Closed l) :=
  inferInstanceAs (Decidable (∀ f ∈ l.getLast?, _))

/-- The calls that print some fragments; `first` is whether a message begins. -/
def fragmentCalls (out : LogOutput) : Bool → List LogFragment → List StderrCall
  | _, [] => []
  | first, f :: rest =>
    (if first then out.prefixName :: out.msgBegin f.level else []) ++ .fwrite f.text ::
      if f.logContinue = logItemEnd then out.msgEnd ++ fragmentCalls out true rest
      else fragmentCalls out false rest

theorem closed_of_cons {f : LogFragment} {l : List LogFragment} (h : Closed (f :: l)) :
    Closed l := by
  cases l with
  | nil => exact fun _ hf => (nomatch hf)
  | cons g l => exact fun x hx => h x (by rwa [List.getLast?_cons_cons])

theorem logText_unread (out : LogOutput) {log : LogBuffer} {l : List LogFragment}
    (h : log.Unread l) (hne : l ≠ []) (hclosed : Closed l) :
    ∃ log' text rest, (∀ fuel ≥ l.length, logText fuel log = some (log', text)) ∧
      log'.advance.Unread rest ∧ Closed rest ∧ rest.length < l.length ∧
      fragmentCalls out false l = text ++ out.msgEnd ++ fragmentCalls out true rest := by
  induction l generalizing log with
  | nil => exact absurd rfl hne
  | cons f l ih =>
    have hfrag := h.fragment_eq
    have hcontinue : (log.records log.tail).logContinue = f.logContinue := by rw [← hfrag]; rfl
    have htext : (log.records log.tail).text = f.text := by rw [← hfrag]; rfl
    by_cases hend : f.logContinue = logItemEnd
    · refine ⟨log, [.fwrite f.text], l, fun fuel hfuel => ?_, h.advance, closed_of_cons hclosed,
        Nat.lt_succ_self _, by simp [fragmentCalls, hend]⟩
      obtain ⟨fuel, rfl⟩ := Nat.exists_eq_add_of_le' ((Nat.succ_pos l.length).trans_le hfuel)
      simp only [logText, hcontinue, hend, if_true, htext]
    · have hnext : l ≠ [] := by
        rintro rfl
        exact hend (hclosed f rfl)
      have hhead : log.head ≠ log.advance.tail := fun heq =>
        hnext (h.advance.head_eq_tail_iff.mp heq)
      obtain ⟨log', text, rest, hrun, hrest, hcl, hlt, hcalls⟩ :=
        ih h.advance hnext (closed_of_cons hclosed)
      refine ⟨log', .fwrite f.text :: text, rest, fun fuel hfuel => ?_, hrest, hcl,
        Nat.lt_succ_of_lt hlt, by simp [fragmentCalls, hend, hcalls]⟩
      obtain ⟨fuel, rfl⟩ := Nat.exists_eq_add_of_le' ((Nat.succ_pos l.length).trans_le hfuel)
      simp only [logText, hcontinue, if_neg hend, if_pos hhead, htext, Option.map_some,
        hrun fuel (Nat.le_of_succ_le_succ hfuel)]

theorem logMessages_unread (out : LogOutput) {log : LogBuffer} {l : List LogFragment}
    (h : log.Unread l) (hne : l ≠ []) (hclosed : Closed l) : ∃ log',
      (∀ fuel ≥ l.length, logMessages out fuel log = some (log', fragmentCalls out true l)) ∧
        log'.head = log'.tail := by
  induction hn : l.length using Nat.strong_induction_on generalizing log l with
  | _ n ih =>
    subst hn
    obtain ⟨log', text, rest, hrun, hrest, hcl, hlt, hcalls⟩ := logText_unread out h hne hclosed
    have hfirst : fragmentCalls out true l = out.prefixName ::
        out.msgBegin (log.records log.tail).level ++ fragmentCalls out false l := by
      obtain ⟨f, l, rfl⟩ := List.exists_cons_of_ne_nil hne
      have hlevel : (log.records log.tail).level = f.level := by rw [← h.fragment_eq]; rfl
      simp [fragmentCalls, hlevel]
    by_cases hdone : log'.advance.head = log'.advance.tail
    · obtain rfl : rest = [] := hrest.head_eq_tail_iff.mp hdone
      refine ⟨log'.advance, fun fuel hfuel => ?_, hdone⟩
      obtain ⟨fuel, rfl⟩ := Nat.exists_eq_add_of_le' ((Nat.zero_lt_of_lt hlt).trans_le hfuel)
      simp only [logMessages, hrun _ hfuel, Option.bind_eq_bind, Option.bind_some, hdone, ne_eq,
        not_true_eq_false, if_false, hfirst, hcalls, fragmentCalls, List.append_nil,
        List.append_assoc, List.cons_append]
    · obtain ⟨log'', hrec, hend⟩ := ih rest.length hlt hrest
        (fun hno => hdone (hrest.head_eq_tail_iff.mpr hno)) hcl rfl
      refine ⟨log'', fun fuel hfuel => ?_, hend⟩
      obtain ⟨fuel, rfl⟩ := Nat.exists_eq_add_of_le' ((Nat.zero_lt_of_lt hlt).trans_le hfuel)
      simp only [logMessages, hrun _ hfuel, Option.bind_eq_bind, Option.bind_some, ne_eq, hdone,
        not_false_eq_true, if_true, hrec fuel (by omega), Option.map_some, hfirst, hcalls,
        List.append_assoc, List.cons_append]

/-- **What is printed** when the last unread fragment ends its message. -/
theorem logPrint_unread (out : LogOutput) {log : LogBuffer} {l : List LogFragment}
    (h : log.Unread l) (hclosed : Closed l) : ∃ log',
      (∀ fuel ≥ logBufferSize, logPrint out fuel log = some (log', fragmentCalls out true l)) ∧
        log'.head = log'.tail := by
  by_cases hempty : l = []
  · subst hempty
    have heq := h.head_eq_tail_iff.mpr rfl
    exact ⟨log, fun _ _ => if_pos heq, heq⟩
  · have hne := fun heq => hempty (h.head_eq_tail_iff.mp heq)
    obtain ⟨log', hrun, hend⟩ := logMessages_unread out h hempty hclosed
    refine ⟨log', fun fuel hfuel => ?_, hend⟩
    rw [logPrint, if_neg hne]
    exact hrun fuel (h.length_lt.le.trans hfuel)

/-! ## Whole messages -/

theorem closed_append {a b : List LogFragment} (ha : Closed a) (hb : Closed b) :
    Closed (a ++ b) := by
  intro f hf
  rw [Option.mem_def, List.getLast?_append, Option.or_eq_some_iff] at hf
  rcases hf with hf | ⟨-, hf⟩
  · exact hb f hf
  · exact ha f hf

section

variable (level : LogLevel) (date : UInt64) (tmp : Buf) (offset len : Nat)

theorem fragments_eq_cons : ∃ f parts,
    fragments level date tmp offset len = f :: parts ∧ f.level = level := by
  rw [fragments]
  split_ifs
  · exact ⟨_, _, rfl, rfl⟩
  · exact ⟨_, _, rfl, rfl⟩

theorem closed_fragments : Closed (fragments level date tmp offset len) := by
  fun_induction fragments level date tmp offset len with
  | case1 offset hmore ih =>
    obtain ⟨f, parts, hparts, -⟩ :=
      fragments_eq_cons level date tmp (offset + logItemMaxmsg) len
    rw [hparts] at ih ⊢
    exact fun g hg => ih g (by rwa [List.getLast?_cons_cons] at hg)
  | case2 offset hlast =>
    intro f hf
    obtain rfl := Option.some.inj hf
    rfl

theorem fragmentCalls_fragments (out : LogOutput) (rest : List LogFragment) :
    fragmentCalls out false (fragments level date tmp offset len ++ rest) =
      (fragments level date tmp offset len).map (fun f => .fwrite f.text) ++ out.msgEnd ++
        fragmentCalls out true rest := by
  fun_induction fragments level date tmp offset len with
  | case1 offset hmore ih =>
    have hcontinue : logItemContinue ≠ logItemEnd := by decide
    simp [fragmentCalls, hcontinue, ih]
  | case2 offset hlast => simp [fragmentCalls]

theorem fragmentCalls_message (out : LogOutput) (rest : List LogFragment) :
    fragmentCalls out true (fragments level date tmp offset len ++ rest) =
      out.prefixName :: out.msgBegin level ++
        (fragments level date tmp offset len).map (fun f => .fwrite f.text) ++ out.msgEnd ++
        fragmentCalls out true rest := by
  obtain ⟨f, parts, hparts, hlevel⟩ := fragments_eq_cons level date tmp offset len
  have hfalse := fragmentCalls_fragments level date tmp offset len out rest
  rw [hparts] at hfalse ⊢
  simp only [fragmentCalls, List.cons_append, if_true, Bool.false_eq_true, if_false,
    List.nil_append, hlevel] at hfalse ⊢
  simp [hfalse]

end

namespace LogMessage

/-- The fragments that a message needs. -/
def fragmentCount (m : LogMessage) : Nat := max 1 ((m.text.length + 31) / logItemMaxmsg)

/-- A message as it is to be printed. -/
def bytes (out : LogOutput) (m : LogMessage) : List UInt8 :=
  (out.prefixName :: out.msgBegin m.level ++ .fwrite m.text :: out.msgEnd).flatMap
    StderrCall.bytes

end LogMessage

theorem slice_vsnprintf (buff : Buf) {text : List UInt8} (h : text.length ≤ msgBuffLen - 1) :
    slice (vsnprintf buff msgBuffLen text) 0 text.length = text := by
  rw [vsnprintf, List.take_of_length_le h]
  have := slice_append (l := text) (r := [0]) (slice_memcpy buff 0 (text ++ [0]))
  exact this.1

theorem format_fragments (s : LogService) {m : LogMessage} (h : m.text.length ≤ msgBuffLen - 1) :
    (s.format m).2 = fragments m.level m.date (s.format m).1 0 m.text.length ∧
      (s.format m).2.flatMap LogFragment.text = m.text := by
  have hlen : (UInt32.ofNat m.text.length).toNat = m.text.length := by
    simp only [msgBuffLen] at h
    rw [UInt32.toNat_ofNat']
    omega
  refine ⟨by rw [LogService.format, hlen], ?_⟩
  simp only [LogService.format, hlen, flatMap_text_fragments, Nat.sub_zero]
  exact slice_vsnprintf _ h

/-- **Putting messages**: their fragments are unread, and are printed as the messages. -/
theorem logPutRecord_unread (out : LogOutput) {messages : List LogMessage}
    (hlen : ∀ m ∈ messages, m.text.length ≤ msgBuffLen - 1) {s : LogService}
    {l : List LogFragment} (h : s.log.Unread l)
    (hfit : l.length + (messages.map LogMessage.fragmentCount).sum < logBufferSize) :
    ∃ parts, (messages.foldl logPutRecord s).log.Unread (l ++ parts) ∧ Closed parts ∧
      (fragmentCalls out true parts).flatMap StderrCall.bytes =
        messages.flatMap (LogMessage.bytes out) := by
  induction messages generalizing s l with
  | nil => exact ⟨[], by simpa using h, fun _ hf => (nomatch hf), rfl⟩
  | cons m messages ih =>
    obtain ⟨hparts, htext⟩ := format_fragments s (hlen m List.mem_cons_self)
    have hcount : (s.format m).2.length = m.fragmentCount := by
      rw [hparts, length_fragments]
      rfl
    rw [List.map_cons, List.sum_cons] at hfit
    have hsmall : ∀ f ∈ (s.format m).2, f.text.length ≤ logItemMaxmsg := by
      rw [hparts]
      exact length_text_fragments _ _ _ _ _
    have hroom : l.length + (s.format m).2.length < logBufferSize := by omega
    have hput : (logPutRecord s m).log.Unread (l ++ (s.format m).2) := h.publish_all hsmall hroom
    obtain ⟨parts, hunread, hclosed, hbytes⟩ := ih
      (fun x hx => hlen x (List.mem_cons_of_mem m hx)) hput
      (by rw [List.length_append]; omega)
    refine ⟨(s.format m).2 ++ parts, ?_, ?_, ?_⟩
    · rw [← List.append_assoc]
      exact hunread
    · rw [hparts]
      exact closed_append (closed_fragments _ _ _ _ _) hclosed
    · have hmap : ((s.format m).2.map fun f => StderrCall.fwrite f.text).flatMap
          StderrCall.bytes = m.text := by
        rw [List.flatMap_map]
        exact htext
      rw [hparts] at hmap ⊢
      rw [fragmentCalls_message]
      simp only [List.flatMap_append, List.flatMap_cons, hmap, hbytes, LogMessage.bytes,
        List.cons_append, StderrCall.bytes, List.append_assoc]

/-- **Delivery.** The messages that were put are printed, in order, each with its level and its
text, and then the log is empty. -/
theorem log_delivers (out : LogOutput) (s : LogService) (hstart : s.log.head = s.log.tail)
    (messages : List LogMessage) (hlen : ∀ m ∈ messages, m.text.length ≤ 511)
    (hfit : (messages.map LogMessage.fragmentCount).sum ≤ 63) :
    ∃ log calls, (∀ fuel ≥ logBufferSize,
        logPrint out fuel (messages.foldl logPutRecord s).log = some (log, calls)) ∧
      calls.flatMap StderrCall.bytes = messages.flatMap (LogMessage.bytes out) ∧
      log.head = log.tail := by
  obtain ⟨parts, hunread, hclosed, hbytes⟩ :=
    logPutRecord_unread out hlen (.nil hstart) (by simpa using Nat.lt_succ_of_le hfit)
  obtain ⟨log, hrun, hend⟩ := logPrint_unread out hunread hclosed
  exact ⟨log, _, hrun, hbytes, hend⟩

/-- A text of two fragments, an empty one, and one of exactly 32 bytes. -/
theorem log_delivers_three : ∃ log calls, (∀ fuel ≥ logBufferSize,
    logPrint ⟨cString "rc", true⟩ fuel (([⟨.inf, 1, List.replicate 33 65⟩, ⟨.dbg, 2, []⟩,
      ⟨.err, 3, List.replicate 32 66⟩] : List LogMessage).foldl logPutRecord
        ⟨⟨62, 62, fun _ => ⟨.dbg, 0, 0, 0, fun _ => 0⟩⟩, fun _ => 0⟩).log = some (log, calls)) ∧
    calls.flatMap StderrCall.bytes = ([⟨.inf, 1, List.replicate 33 65⟩, ⟨.dbg, 2, []⟩,
      ⟨.err, 3, List.replicate 32 66⟩] : List LogMessage).flatMap
        (LogMessage.bytes ⟨cString "rc", true⟩) ∧
    log.head = log.tail :=
  log_delivers _ _ rfl _ (by simp) (by decide)

end Rhex
