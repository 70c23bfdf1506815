import SlidingWindow.Library.Runs

/-! One step function followed by another, step by step. `pairs` says which inputs of the
two may be taken together. -/
namespace SlidingWindow.Library.Simulation

variable {σ τ ι κ : Type} {step : σ → ι → σ} {follow : τ → κ → τ} {pairs : ι → κ → Prop}
  {state : σ} {image : τ}

/-- Steps that can be followed from a related state make runs that can be followed. -/
theorem exists_run (related : σ → τ → Prop)
    (hstep : ∀ s t input, related s t →
      ∃ input', pairs input input' ∧ related (step s input) (follow t input'))
    (h : related state image) (inputs : List ι) :
    ∃ inputs', List.Forall₂ pairs inputs inputs' ∧
      related (Runs.run step state inputs) (Runs.run follow image inputs') := by
  induction inputs generalizing state image with
  | nil => exact ⟨[], .nil, h⟩
  | cons input inputs ih =>
      obtain ⟨input', hpair, hnext⟩ := hstep state image input h
      obtain ⟨inputs', hpairs, hend⟩ := ih hnext
      exact ⟨input' :: inputs', .cons hpair hpairs, hend⟩

end SlidingWindow.Library.Simulation
