import Mathlib
import Rhex.Lib.Traced
import Rhex.Log

/-!
# The bounds of `log_put_record`

The result of `vsnprintf` is the length that the text would have in a large enough buffer, and the
loop of `log_put_record` takes it for the length of what is stored.

* `fragmentReads` — what the loop reads from `tmp_msg_buff`.
* `logPutRecord_bounds` — it is what was stored exactly if the text fits.
-/

namespace Rhex

open Memory

/-- The reads of `tmp_msg_buff` for the bytes from `offset` on, a `memcpy` for each fragment. -/
def fragmentReads (offset len : Nat) : List Access :=
  if len - offset > logItemMaxmsg then
    ⟨offset, logItemMaxmsg⟩ :: fragmentReads (offset + logItemMaxmsg) len
  else [⟨offset, len - offset⟩]
termination_by len - offset

/-- A fragment is what its `memcpy` reads. -/
theorem text_fragments (level : LogLevel) (date : UInt64) (tmp : Buf) (offset len : Nat) :
    (fragments level date tmp offset len).map LogFragment.text =
      (fragmentReads offset len).map fun a => slice tmp a.off a.len := by
  fun_induction fragments level date tmp offset len with
  | case1 offset hmore ih =>
    rw [fragmentReads, if_pos hmore, List.map_cons, List.map_cons, ih]
  | case2 offset hlast =>
    rw [fragmentReads, if_neg hlast]
    rfl

theorem fragmentReads_within (n : Nat) {offset len : Nat} :
    (∀ a ∈ fragmentReads offset len, a.Within n) ↔ len ≤ offset ∨ len ≤ n := by
  fun_induction fragmentReads offset len with
  | case1 offset hmore ih =>
    rw [List.forall_mem_cons, ih, Access.within_iff]
    simp only [logItemMaxmsg] at hmore ⊢
    omega
  | case2 offset hlast =>
    rw [List.forall_mem_singleton, Access.within_iff]
    simp only
    omega

/-- How many bytes `vsnprintf` stores for a text, with the zero. -/
def storedLength (text : List UInt8) : Nat := (text.take (msgBuffLen - 1)).length + 1

/-- A call of `log_put_record` keeps within its buffers: it reads what `vsnprintf` stored, writes
no more to a record than it holds, and publishes the text that was stored. -/
structure PutsStored (s : LogService) (m : LogMessage) : Prop where
  reads : ∀ a ∈ fragmentReads 0 (UInt32.ofNat m.text.length).toNat, a.Within (storedLength m.text)
  writes : ∀ f ∈ (s.format m).2, f.text.length ≤ logItemMaxmsg
  text : (s.format m).2.flatMap LogFragment.text = m.text.take (msgBuffLen - 1)

theorem length_format (s : LogService) {m : LogMessage} (h : m.text.length < 2 ^ 31) :
    ((s.format m).2.flatMap LogFragment.text).length = m.text.length := by
  simp only [LogService.format, flatMap_text_fragments, length_slice, UInt32.toNat_ofNat']
  omega

/-- **A message is put as it was stored exactly if it has at most 511 characters.** -/
theorem logPutRecord_bounds (s : LogService) (m : LogMessage) (hint : m.text.length < 2 ^ 31) :
    PutsStored s m ↔ m.text.length ≤ 511 := by
  constructor
  · intro h
    have hlen := length_format s hint
    rw [h.text, List.length_take] at hlen
    simp only [msgBuffLen] at hlen
    omega
  · intro hfit
    obtain ⟨hparts, htext⟩ := format_fragments s hfit
    have htake : m.text.take (msgBuffLen - 1) = m.text := List.take_of_length_le hfit
    constructor
    · rw [fragmentReads_within, storedLength, htake, UInt32.toNat_ofNat']
      omega
    · rw [hparts]
      exact length_text_fragments _ _ _ _ _
    · rw [htext, htake]

/-- A message of 40 characters. -/
theorem logPutRecord_bounds_forty :
    PutsStored ⟨⟨62, 62, fun _ => ⟨.dbg, 0, 0, 0, ofList []⟩⟩, ofList []⟩
      ⟨.inf, 1, List.replicate 40 65⟩ :=
  (logPutRecord_bounds _ _ (by simp)).mpr (by simp)

/-- The longest message that `camera_cycle` makes of the output of its process, ten characters in
front of 1024: 512 bytes are stored, and two of 1034 characters are read behind them. -/
theorem logPutRecord_overread :
    let text : List UInt8 :=
      [0x72, 0x61, 0x73, 0x70, 0x69, 0x76, 0x69, 0x64, 0x3a, 0x20] ++ List.replicate 1024 0x41
    text.length = 1034 ∧ storedLength text = 512 ∧
      ¬PutsStored ⟨⟨62, 62, fun _ => ⟨.dbg, 0, 0, 0, ofList []⟩⟩, ofList []⟩ ⟨.inf, 1, text⟩ := by
  intro text
  have hlength : text.length = 1034 := by
    rw [List.length_append, List.length_replicate]
    rfl
  refine ⟨hlength, ?_, ?_⟩
  · rw [storedLength, List.length_take, hlength]
    rfl
  · rw [logPutRecord_bounds _ _ (by rw [hlength]; decide), hlength]
    decide

end Rhex
