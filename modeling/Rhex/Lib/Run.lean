import Mathlib

/-!
# Runs of a program that may end

A program takes one step for each event; a step that has no result ends it.

* `Run.Throughout` — a property of a state and the event it meets holds at every step of a run.
* `Run.Throughout.of_invariant`, `Run.Throughout.congr` — what the invariant implies at each step
  holds throughout a run, and two properties that agree under it agree on runs.
* `Run.Throughout.append` — a run in two parts.
* `Run.Simulates` — the steps of one program are those of another one, on other states.
* `Run.Simulates.run`, `Run.Simulates.throughout` — and so are its runs.
-/

namespace Run

variable {σ ε : Type*} {step : σ → ε → Option σ}

/-- `P` holds at every step of the run. -/
def Throughout (step : σ → ε → Option σ) (P : σ → ε → Prop) : σ → List ε → Prop
  | _, [] => True
  | s, e :: es => P s e ∧ ∀ s', step s e = some s' → Throughout step P s' es

namespace Throughout

variable {P Q : σ → ε → Prop} {I : σ → Prop}

theorem of_invariant {es : List ε} (hstep : ∀ s, ∀ e ∈ es, ∀ s', I s → step s e = some s' → I s')
    (h : ∀ s, ∀ e ∈ es, I s → P s e) {s : σ} (hs : I s) : Throughout step P s es := by
  induction es generalizing s with
  | nil => trivial
  | cons e es ih =>
    refine ⟨h s e List.mem_cons_self hs, ?_⟩
    intro s' hs'
    exact ih (fun s x hx => hstep s x (List.mem_cons_of_mem e hx))
      (fun s x hx => h s x (List.mem_cons_of_mem e hx)) (hstep s e List.mem_cons_self s' hs hs')

theorem imp {es : List ε} (hstep : ∀ s, ∀ e ∈ es, ∀ s', I s → step s e = some s' → I s')
    (h : ∀ s, ∀ e ∈ es, I s → P s e → Q s e) {s : σ} (hs : I s) (hp : Throughout step P s es) :
    Throughout step Q s es := by
  induction es generalizing s with
  | nil => trivial
  | cons e es ih =>
    refine ⟨h s e List.mem_cons_self hs hp.1, fun s' hs' => ?_⟩
    exact ih (fun s x hx => hstep s x (List.mem_cons_of_mem e hx))
      (fun s x hx => h s x (List.mem_cons_of_mem e hx)) (hstep s e List.mem_cons_self s' hs hs')
      (hp.2 s' hs')

/-- Two properties that agree under an invariant agree on runs, if the steps that have them keep
it. -/
theorem congr_while {es : List ε}
    (hstep : ∀ s, ∀ e ∈ es, ∀ s', I s → Q s e → step s e = some s' → I s')
    (h : ∀ s, ∀ e ∈ es, I s → (P s e ↔ Q s e)) {s : σ} (hs : I s) :
    Throughout step P s es ↔ Throughout step Q s es := by
  induction es generalizing s with
  | nil => exact Iff.rfl
  | cons e es ih =>
    rw [Throughout, Throughout, h s e List.mem_cons_self hs]
    refine and_congr_right fun hq => forall₂_congr fun s' hs' => ?_
    exact ih (fun s x hx => hstep s x (List.mem_cons_of_mem e hx))
      (fun s x hx => h s x (List.mem_cons_of_mem e hx))
      (hstep s e List.mem_cons_self s' hs hq hs')

theorem and {s : σ} {es : List ε} (hp : Throughout step P s es) (hq : Throughout step Q s es) :
    Throughout step (fun s e => P s e ∧ Q s e) s es := by
  induction es generalizing s with
  | nil => trivial
  | cons e es ih => exact ⟨⟨hp.1, hq.1⟩, fun s' hs' => ih (hp.2 s' hs') (hq.2 s' hs')⟩

theorem congr {es : List ε} (hstep : ∀ s, ∀ e ∈ es, ∀ s', I s → step s e = some s' → I s')
    (h : ∀ s, ∀ e ∈ es, I s → (P s e ↔ Q s e)) {s : σ} (hs : I s) :
    Throughout step P s es ↔ Throughout step Q s es :=
  congr_while (fun s e he s' hi _ => hstep s e he s' hi) h hs

theorem append (s : σ) (es fs : List ε) :
    Throughout step P s (es ++ fs) ↔
      Throughout step P s es ∧ ∀ s', es.foldlM step s = some s' → Throughout step P s' fs := by
  induction es generalizing s with
  | nil => simp [Throughout]
  | cons e es ih =>
    rw [List.cons_append, Throughout, Throughout, List.foldlM_cons, and_assoc]
    refine and_congr_right fun _ => ?_
    cases hs : step s e with
    | none => simp
    | some t => simp [ih]

end Throughout

/-! ## Runs of another program -/

/-- The steps of `step'` are those of `step`, on the states that `f` makes of its states, as long
as `I` holds of the state and `Q` of the step. -/
structure Simulates {τ : Type*} (step : σ → ε → Option σ) (step' : τ → ε → Option τ) (f : σ → τ)
    (I : σ → Prop) (Q : σ → ε → Prop) : Prop where
  keeps : ∀ s e s', I s → step s e = some s' → I s'
  map : ∀ s e, I s → Q s e → step' (f s) e = (step s e).map f

namespace Simulates

variable {τ : Type*} {step' : τ → ε → Option τ} {f : σ → τ} {I : σ → Prop} {Q : σ → ε → Prop}

theorem run (h : Simulates step step' f I Q) {s : σ} {es : List ε} (hs : I s)
    (hQ : Throughout step Q s es) : es.foldlM step' (f s) = (es.foldlM step s).map f := by
  induction es generalizing s with
  | nil => rfl
  | cons e es ih =>
    rw [List.foldlM_cons, List.foldlM_cons, h.map s e hs hQ.1]
    cases hstep : step s e with
    | none => rfl
    | some t => exact ih (h.keeps s e t hs hstep) (hQ.2 t hstep)

theorem throughout (h : Simulates step step' f I Q) {P : τ → ε → Prop} {s : σ} {es : List ε}
    (hs : I s) (hQ : Throughout step Q s es) :
    Throughout step' P (f s) es ↔ Throughout step (fun s e => P (f s) e) s es := by
  induction es generalizing s with
  | nil => exact Iff.rfl
  | cons e es ih =>
    rw [Throughout, Throughout, h.map s e hs hQ.1]
    refine and_congr_right fun _ => ?_
    cases hstep : step s e with
    | none => simp
    | some t => simpa using ih (h.keeps s e t hs hstep) (hQ.2 t hstep)

end Simulates

theorem invariant_of_throughout {I : σ → Prop} {Q : σ → ε → Prop}
    (hstep : ∀ s e s', I s → Q s e → step s e = some s' → I s') {s s' : σ} {es : List ε}
    (hs : I s) (hQ : Throughout step Q s es) (hrun : es.foldlM step s = some s') : I s' := by
  induction es generalizing s with
  | nil => exact Option.some.inj hrun ▸ hs
  | cons e es ih =>
    rw [List.foldlM_cons] at hrun
    obtain ⟨t, ht, hrun⟩ := Option.bind_eq_some_iff.mp hrun
    exact ih (hstep s e t hs hQ.1 ht) (hQ.2 t ht) hrun

end Run
