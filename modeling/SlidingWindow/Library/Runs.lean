import Mathlib.Data.List.Basic

/-! Runs of a deterministic step function. The input of a step carries every
choice of the environment, so a run is a list of inputs and a reachable state is
the end of one. Conditions are attached to steps, not to states: `Along ok` says
that each step of a run starts in a state and takes an input that meet `ok`. -/
namespace SlidingWindow.Library.Runs

variable {σ ι : Type*}

def run (step : σ → ι → σ) (state : σ) (inputs : List ι) : σ :=
  inputs.foldl step state

def Along (step : σ → ι → σ) (ok : σ → ι → Prop) : σ → List ι → Prop
  | _, [] => True
  | state, input :: rest => ok state input ∧ Along step ok (step state input) rest

variable {step : σ → ι → σ} {ok : σ → ι → Prop} {state : σ} {input : ι}
  {inputs first second : List ι}

@[simp] theorem run_nil : run step state [] = state := rfl

@[simp] theorem run_cons :
    run step state (input :: inputs) = run step (step state input) inputs := rfl

@[simp] theorem run_append :
    run step state (first ++ second) = run step (run step state first) second := by
  simp [run]

@[simp] theorem along_nil : Along step ok state [] := trivial

@[simp] theorem along_cons :
    Along step ok state (input :: inputs) ↔
      ok state input ∧ Along step ok (step state input) inputs := Iff.rfl

@[simp] theorem along_true : Along step (fun _ _ => True) state inputs := by
  induction inputs generalizing state with
  | nil => trivial
  | cons input inputs ih => exact ⟨trivial, ih⟩

theorem along_append :
    Along step ok state (first ++ second) ↔
      Along step ok state first ∧ Along step ok (run step state first) second := by
  induction first generalizing state with
  | nil => simp
  | cons input first ih => simp [ih, and_assoc]

theorem forall_prefix_concat {property : List ι → Prop} :
    (∀ earlier later, inputs ++ [input] = earlier ++ later → property earlier) ↔
      (∀ earlier later, inputs = earlier ++ later → property earlier) ∧
        property (inputs ++ [input]) := by
  constructor
  · intro h
    refine ⟨fun earlier later heq => ?_, h _ [] (List.append_nil _).symm⟩
    exact h earlier (later ++ [input]) (by rw [heq, List.append_assoc])
  · rintro ⟨h, hlast⟩ earlier later heq
    rcases List.eq_nil_or_concat later with rfl | ⟨rest, last, rfl⟩
    · rw [List.append_nil] at heq
      rwa [← heq]
    · rw [List.concat_eq_append, ← List.append_assoc] at heq
      exact h earlier rest (List.append_inj_left' heq rfl)

instance decidableAlong [∀ s i, Decidable (ok s i)] :
    (state : σ) → (inputs : List ι) → Decidable (Along step ok state inputs)
  | _, [] => .isTrue trivial
  | state, input :: rest =>
      have := decidableAlong (step state input) rest
      inferInstanceAs (Decidable (_ ∧ _))

theorem along_iff_split :
    Along step ok state inputs ↔
      ∀ first input second, inputs = first ++ input :: second →
        ok (run step state first) input := by
  constructor
  · rintro h first input second rfl
    exact (along_append.mp h).2.1
  · intro h
    induction inputs generalizing state with
    | nil => trivial
    | cons input inputs ih =>
        refine ⟨h [] input inputs rfl, ih fun first next second hsplit => ?_⟩
        exact h (input :: first) next second (by rw [hsplit]; rfl)

section Invariant

variable (invariant : σ → Prop)

/-- An invariant of the steps that meet `ok` holds at the end of every run made of
such steps. -/
theorem run_invariant
    (hstep : ∀ s i, invariant s → ok s i → invariant (step s i))
    (hinit : invariant state) (h : Along step ok state inputs) :
    invariant (run step state inputs) := by
  induction inputs generalizing state with
  | nil => exact hinit
  | cons input inputs ih => exact ih (hstep _ _ hinit h.1) h.2

theorem along_of_invariant {conclusion : σ → ι → Prop}
    (hstep : ∀ s i, invariant s → ok s i → invariant (step s i))
    (hconclude : ∀ s i, invariant s → ok s i → conclusion s i)
    (hinit : invariant state) (h : Along step ok state inputs) :
    Along step conclusion state inputs := by
  induction inputs generalizing state with
  | nil => trivial
  | cons input inputs ih =>
      exact ⟨hconclude _ _ hinit h.1, ih (hstep _ _ hinit h.1) h.2⟩

/-- What a step keeps exactly if it meets a condition, a run keeps exactly if all its
steps meet it. -/
theorem run_iff_along (kept : σ → Prop) {condition : σ → ι → Prop}
    (hstep : ∀ s i, invariant s → ok s i → invariant (step s i))
    (hiff : ∀ s i, invariant s → (kept (step s i) ↔ kept s ∧ condition s i))
    (hinit : invariant state) (h : Along step ok state inputs) :
    kept (run step state inputs) ↔ kept state ∧ Along step condition state inputs := by
  induction inputs generalizing state with
  | nil => simp
  | cons input inputs ih =>
      rw [run_cons, along_cons, ih (hstep _ _ hinit h.1) h.2, hiff _ _ hinit, and_assoc]

theorem along_iff_of_invariant {left right : σ → ι → Prop}
    (hstep : ∀ s i, invariant s → ok s i → invariant (step s i))
    (hiff : ∀ s i, invariant s → (left s i ↔ right s i))
    (hinit : invariant state) (h : Along step ok state inputs) :
    Along step left state inputs ↔ Along step right state inputs := by
  induction inputs generalizing state with
  | nil => exact Iff.rfl
  | cons input inputs ih =>
      rw [along_cons, along_cons, hiff _ _ hinit, ih (hstep _ _ hinit h.1) h.2]

/-- A measure that falls with every step outside a set of states that is never left
bounds the steps until it is entered. -/
theorem run_final_of_measure (final : σ → Prop) (measure : σ → ℕ)
    (hstep : ∀ s i, invariant s → ok s i → invariant (step s i))
    (hfalls : ∀ s i, invariant s → ok s i → ¬ final s → measure (step s i) < measure s)
    (hkept : ∀ s i, final s → final (step s i))
    (hinit : invariant state) (h : Along step ok state inputs)
    (hzero : ∀ s, invariant s → measure s = 0 → final s)
    (hlong : measure state ≤ inputs.length) : final (run step state inputs) := by
  induction inputs generalizing state with
  | nil => exact hzero _ hinit (Nat.le_zero.mp hlong)
  | cons input inputs ih =>
      by_cases hdone : final state
      · have hnever {state : σ} (hdone : final state) (rest : List ι) :
            final (run step state rest) := by
          induction rest generalizing state with
          | nil => exact hdone
          | cons input rest ih => exact ih (hkept _ _ hdone)
        exact hnever (hkept _ _ hdone) inputs
      · refine ih (hstep _ _ hinit h.1) h.2 ?_
        have := hfalls _ _ hinit h.1 hdone
        rw [List.length_cons] at hlong
        omega

end Invariant

end SlidingWindow.Library.Runs
