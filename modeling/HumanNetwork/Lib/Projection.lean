import Mathlib.Data.List.Basic

/-!
# Components of a machine

A machine answers each event with an output and a next state. A component of it is a machine of its own that sees
some of the events, each in its own form, and keeps a part of the state. If the other events leave that part alone
and the component answers its own events as the machine does (`Projects`), then the answers to its events in a run
are those of the component alone: what happens in between does not matter.
-/

namespace Machine
variable {σ τ ε δ ω : Type*}

def outputs (step : σ → ε → ω × σ) : σ → List ε → List ω
  | _, [] => []
  | s, e :: es => (step s e).1 :: outputs step (step s e).2 es

def outputsOf (step : σ → ε → ω × σ) (mine : ε → Option δ) : σ → List ε → List ω
  | _, [] => []
  | s, e :: es =>
    match mine e with
    | some _ => (step s e).1 :: outputsOf step mine (step s e).2 es
    | none => outputsOf step mine (step s e).2 es

structure Projects (step : σ → ε → ω × σ) (part : τ → δ → ω × τ) (proj : σ → τ) (mine : ε → Option δ) : Prop where
  other : ∀ s e, mine e = none → proj (step s e).2 = proj s
  own : ∀ s e d, mine e = some d → (step s e).1 = (part (proj s) d).1 ∧ proj (step s e).2 = (part (proj s) d).2

variable {step : σ → ε → ω × σ} {part : τ → δ → ω × τ} {proj : σ → τ} {mine : ε → Option δ}

theorem Projects.outputsOf_eq (h : Projects step part proj mine) (s : σ) (es : List ε) :
    outputsOf step mine s es = outputs part (proj s) (es.filterMap mine) := by
  induction es generalizing s with
  | nil => rfl
  | cons e es ih =>
    rw [outputsOf]
    cases hmine : mine e with
    | none => rw [List.filterMap_cons_none hmine, ih, h.other s e hmine]
    | some d =>
      obtain ⟨hout, hnext⟩ := h.own s e d hmine
      rw [List.filterMap_cons_some hmine, outputs, ih, hnext, hout]

/-- Two runs that start alike for the component, and in which it sees the same, give it the same outputs. -/
theorem Projects.outputsOf_congr (h : Projects step part proj mine) {s s' : σ} {es es' : List ε}
    (hstart : proj s = proj s') (hsame : es.filterMap mine = es'.filterMap mine) :
    outputsOf step mine s es = outputsOf step mine s' es' := by
  rw [h.outputsOf_eq, h.outputsOf_eq, hstart, hsame]

end Machine
