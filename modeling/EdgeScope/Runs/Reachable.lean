import Mathlib.Data.List.Basic
import Mathlib.Tactic.Common

/-!
# Reachable states under a condition

`Reachable step P start` are the states of the runs from `start` in which every step is taken
with an input and from a state that satisfy `P`. What holds at the start and is preserved by
such steps holds in all of them, and a machine that another one follows takes it along.
-/

namespace EdgeScope.Runs

variable {σ τ ι κ : Type*}

inductive Reachable (step : ι → σ → σ → Prop) (P : ι → σ → Prop) (start : σ) : σ → Prop
  | start : Reachable step P start start
  | step {input : ι} {s s' : σ} (h : Reachable step P start s) (hP : P input s)
      (hstep : step input s s') : Reachable step P start s'

variable {step : ι → σ → σ → Prop} {P : ι → σ → Prop} {start : σ}

/-- The rule for invariants. -/
theorem Reachable.invariant {I : σ → Prop} (hstart : I start)
    (hstep : ∀ input s s', I s → P input s → step input s s' → I s')
    {s : σ} (h : Reachable step P start s) : I s := by
  induction h with
  | start => exact hstart
  | step _ hP hmove ih => exact hstep _ _ _ ih hP hmove

/-- The rule for simulations. Every step of the first machine is one of the second under `view`,
or cannot be seen there; `I` is an invariant of the first. -/
theorem Reachable.simulate {move : κ → τ → τ → Prop} {Q : κ → τ → Prop} {I : σ → Prop}
    (view : σ → τ) (hstart : I start)
    (hinvariant : ∀ input s s', I s → step input s s' → I s')
    (hstep : ∀ input s s', I s → P input s → step input s s' →
      view s' = view s ∨ ∃ event, Q event (view s) ∧ move event (view s) (view s'))
    {s : σ} (h : Reachable step P start s) :
    I s ∧ Reachable move Q (view start) (view s) := by
  induction h with
  | start => exact ⟨hstart, .start⟩
  | step _ hP hmove ih =>
    refine ⟨hinvariant _ _ _ ih.1 hmove, ?_⟩
    rcases hstep _ _ _ ih.1 hP hmove with hview | ⟨event, hQ, hview⟩
    · rw [hview]
      exact ih.2
    · exact ih.2.step hQ hview

/-- The end of a run, as long as every step can be taken and satisfies the condition. -/
def replay (step : ι → σ → Option σ) (P : ι → σ → Prop) [∀ input s, Decidable (P input s)] :
    List ι → σ → Option σ
  | [], s => some s
  | input :: inputs, s => if P input s then (step input s).bind (replay step P inputs) else none

theorem Reachable.of_replay {step : ι → σ → Option σ} {P : ι → σ → Prop}
    [∀ input s, Decidable (P input s)] {start s s' : σ} {inputs : List ι}
    (h : Reachable (fun input s s' => step input s = some s') P start s)
    (hreplay : replay step P inputs s = some s') :
    Reachable (fun input s s' => step input s = some s') P start s' := by
  induction inputs generalizing s with
  | nil =>
    rw [replay, Option.some_inj] at hreplay
    exact hreplay ▸ h
  | cons input inputs ih =>
    rw [replay] at hreplay
    split at hreplay
    · rename_i hP
      obtain ⟨t, ht, hreplay⟩ := Option.bind_eq_some_iff.mp hreplay
      exact ih (h.step hP ht) hreplay
    · cases hreplay

/-- A run to a state with a property that can be tested. -/
theorem Reachable.exists_of_replay {step : ι → σ → Option σ} {P : ι → σ → Prop}
    [∀ input s, Decidable (P input s)] {start : σ} {R : σ → Prop}
    [DecidablePred R] (inputs : List ι)
    (h : ((replay step P inputs start).any fun s => decide (R s)) = true) :
    ∃ s, Reachable (fun input s s' => step input s = some s') P start s ∧ R s := by
  obtain ⟨s, hs, hR⟩ := (Option.any_eq_true _ _).mp h
  exact ⟨s, .of_replay .start hs, of_decide_eq_true hR⟩

end EdgeScope.Runs
