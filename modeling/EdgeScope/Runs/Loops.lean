import Mathlib.Computability.StateTransition

/-!
# Loops with a condition

The body of a loop gives the next state, or none where the condition of the loop fails. What the
body preserves holds throughout the loop, and a result is found round by round.
-/

namespace EdgeScope.Runs
open StateTransition Relation

variable {σ : Type*} {body : σ → Option σ}

theorem reaches_preserves {I : σ → Prop} (hbody : ∀ s t, t ∈ body s → I s → I t) {s t : σ}
    (h : Reaches body s t) (hs : I s) : I t := by
  induction h with
  | refl => exact hs
  | tail _ hround ih => exact hbody _ _ hround ih

/-- A loop that ends is left where its condition fails. -/
theorem eval_of_round {s t r : σ} (hround : body s = some t) (h : r ∈ eval body t) :
    r ∈ eval body s := by
  obtain ⟨hreaches, hends⟩ := mem_eval.mp h
  exact mem_eval.mpr ⟨hreaches.head hround, hends⟩

theorem eval_of_ends {s : σ} (h : body s = none) : s ∈ eval body s :=
  mem_eval.mpr ⟨.refl, h⟩

end EdgeScope.Runs
