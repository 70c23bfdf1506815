import SlidingWindow.Library.Runs

/-! What the environment can still bring about. `CanReach step ok goal state` says that
some inputs, each allowed where it is taken, lead from `state` to the goal. -/
namespace SlidingWindow.Library.Runs

variable {σ ι : Type*} {step : σ → ι → σ} {ok : σ → ι → Prop} {goal next : σ → Prop}
  {state : σ} {input : ι}

def CanReach (step : σ → ι → σ) (ok : σ → ι → Prop) (goal : σ → Prop) (state : σ) : Prop :=
  ∃ inputs, Along step ok state inputs ∧ goal (run step state inputs)

theorem CanReach.here (h : goal state) : CanReach step ok goal state := ⟨[], trivial, h⟩

theorem CanReach.after (input : ι) (hok : ok state input)
    (h : CanReach step ok goal (step state input)) : CanReach step ok goal state := by
  obtain ⟨inputs, halong, hgoal⟩ := h
  exact ⟨input :: inputs, ⟨hok, halong⟩, hgoal⟩

theorem CanReach.trans (h : CanReach step ok goal state)
    (hnext : ∀ s, goal s → CanReach step ok next s) : CanReach step ok next state := by
  obtain ⟨first, halong, hgoal⟩ := h
  obtain ⟨second, hrest, hend⟩ := hnext _ hgoal
  refine ⟨first ++ second, along_append.mpr ⟨halong, hrest⟩, ?_⟩
  rwa [run_append]

theorem CanReach.mono (h : CanReach step ok goal state) (hnext : ∀ s, goal s → next s) :
    CanReach step ok next state :=
  h.trans fun s hgoal => .here (hnext s hgoal)

/-- A goal that some moves approach, as long as it is not reached, is reached. -/
theorem canReach_of_measure (invariant : σ → Prop) (measure : σ → ℕ)
    (hmove : ∀ s, invariant s → ¬ goal s →
      CanReach step ok (fun s' => invariant s' ∧ measure s' < measure s) s)
    (h : invariant state) : CanReach step ok (fun s => invariant s ∧ goal s) state := by
  induction hmeasure : measure state using Nat.strongRecOn generalizing state with
  | ind bound ih =>
      by_cases hgoal : goal state
      · exact .here ⟨h, hgoal⟩
      · refine (hmove state h hgoal).trans fun s hs => ?_
        exact ih (measure s) (hmeasure ▸ hs.2) hs.1 rfl

end SlidingWindow.Library.Runs
