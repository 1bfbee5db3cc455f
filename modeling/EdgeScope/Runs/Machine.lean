import Mathlib.Data.List.Basic
import Mathlib.Tactic.Common

/-!
# Runs of a machine that may stop

A machine takes one input after another until an input stops it. `Throughout P` says that
every step of a run is taken from a state and with an input that satisfy `P`; a property
that such steps preserve holds in whatever state the run ends.
-/

namespace EdgeScope.Runs

variable {σ τ ι κ : Type*}

/-- The state a run ends in, and whether an input has stopped the machine. -/
def run (step : ι → σ → σ × Bool) : List ι → σ → σ × Bool
  | [], s => (s, false)
  | input :: inputs, s =>
    match step input s with
    | (s, true) => (s, true)
    | (s, false) => run step inputs s

def Throughout (step : ι → σ → σ × Bool) (P : ι → σ → Prop) : List ι → σ → Prop
  | [], _ => True
  | input :: inputs, s =>
    P input s ∧ ((step input s).2 = false → Throughout step P inputs (step input s).1)

instance decidableThroughout (step : ι → σ → σ × Bool) (P : ι → σ → Prop)
    [∀ input s, Decidable (P input s)] :
    ∀ (inputs : List ι) (s : σ), Decidable (Throughout step P inputs s)
  | [], _ => isTrue trivial
  | input :: inputs, s =>
    have := decidableThroughout step P inputs (step input s).1
    inferInstanceAs (Decidable (P input s ∧ ((step input s).2 = false → _)))

theorem run_cons (step : ι → σ → σ × Bool) (input : ι) (inputs : List ι) (s : σ) :
    run step (input :: inputs) s =
      if (step input s).2 then ((step input s).1, true) else run step inputs (step input s).1 := by
  rw [run]
  generalize step input s = result
  obtain ⟨s', stopped⟩ := result
  cases stopped <;> rfl

theorem run_cons_of_goes {step : ι → σ → σ × Bool} {input : ι} {s : σ}
    (h : (step input s).2 = false) (inputs : List ι) :
    run step (input :: inputs) s = run step inputs (step input s).1 := by
  rw [run_cons, h, if_neg Bool.false_ne_true]

theorem run_singleton (step : ι → σ → σ × Bool) (input : ι) (s : σ) :
    run step [input] s = step input s := by
  rw [run]
  generalize step input s = result
  obtain ⟨s', stopped⟩ := result
  cases stopped <;> rfl

theorem run_goes {step : ι → σ → σ × Bool} (h : ∀ input s, (step input s).2 = false)
    (inputs : List ι) (s : σ) : (run step inputs s).2 = false := by
  induction inputs generalizing s with
  | nil => rfl
  | cons input inputs ih =>
    rw [run_cons_of_goes (h input s)]
    exact ih _

theorem run_append {step : ι → σ → σ × Bool} {inputs : List ι} {s : σ}
    (h : (run step inputs s).2 = false) (more : List ι) :
    run step (inputs ++ more) s = run step more (run step inputs s).1 := by
  induction inputs generalizing s with
  | nil => rfl
  | cons input inputs ih =>
    rw [run_cons] at h
    split at h
    · cases h
    · rename_i hgoes
      simp only [Bool.not_eq_true] at hgoes
      rw [List.cons_append, run_cons_of_goes hgoes, run_cons_of_goes hgoes]
      exact ih h

/-- A machine that simulates another one step by step has the same runs. -/
theorem run_map {step : ι → σ → σ × Bool} {step' : κ → τ → τ × Bool} (f : σ → τ) (g : ι → κ)
    (h : ∀ input s, step' (g input) (f s) = (step input s).map f id) (inputs : List ι) (s : σ) :
    run step' (inputs.map g) (f s) = (run step inputs s).map f id := by
  induction inputs generalizing s with
  | nil => rfl
  | cons input inputs ih =>
    rw [List.map_cons, run_cons, run_cons, h]
    simp only [Prod.map_fst, Prod.map_snd, id_eq, ih]
    split <;> rfl

/-- The end of a run is one from where its beginning has led. -/
theorem Throughout.of_append {step : ι → σ → σ × Bool} {P : ι → σ → Prop} {inputs more : List ι}
    {s : σ} (h : Throughout step P (inputs ++ more) s) (hgoes : (run step inputs s).2 = false) :
    Throughout step P more (run step inputs s).1 := by
  induction inputs generalizing s with
  | nil => exact h
  | cons input inputs ih =>
    rw [run_cons] at hgoes
    split at hgoes
    · cases hgoes
    · rename_i hfirst
      simp only [Bool.not_eq_true] at hfirst
      rw [run_cons_of_goes hfirst]
      exact ih (h.2 hfirst) hgoes

/-- The rule for runs: `I` holds as long as the machine goes on, `Q` also where it stops. -/
theorem Throughout.run {step : ι → σ → σ × Bool} {P : ι → σ → Prop} {I Q : σ → Prop}
    (hweaken : ∀ s, I s → Q s)
    (hstep : ∀ input s, I s → P input s →
      ((step input s).2 = false → I (step input s).1) ∧ Q (step input s).1)
    {inputs : List ι} {s : σ} (h : Throughout step P inputs s) (hs : I s) :
    ((run step inputs s).2 = false → I (run step inputs s).1) ∧ Q (run step inputs s).1 := by
  induction inputs generalizing s with
  | nil => exact ⟨fun _ => hs, hweaken s hs⟩
  | cons input inputs ih =>
    obtain ⟨hinput, hrest⟩ := h
    obtain ⟨hkeeps, hstopped⟩ := hstep input s hs hinput
    rw [run_cons]
    split
    · exact ⟨by simp, hstopped⟩
    · rename_i hgoes
      simp only [Bool.not_eq_true] at hgoes
      exact ih (hrest hgoes) (hkeeps hgoes)

/-- What the steps preserve holds as long as the machine goes on. -/
theorem run_preserves {step : ι → σ → σ × Bool} {I : σ → Prop} {inputs : List ι}
    (hstep : ∀ input ∈ inputs, ∀ s, I s → (step input s).2 = false → I (step input s).1) {s : σ}
    (hs : I s) : (run step inputs s).2 = false → I (run step inputs s).1 := by
  induction inputs generalizing s with
  | nil => exact fun _ => hs
  | cons input inputs ih =>
    obtain ⟨hfirst, hrest⟩ := List.forall_mem_cons.mp hstep
    rw [run_cons]
    split
    · exact fun hgoes => absurd hgoes (by simp)
    · rename_i hgoes
      simp only [Bool.not_eq_true] at hgoes
      exact ih hrest (hfirst s hs hgoes)

/-- A run can be left early. -/
theorem Throughout.take {step : ι → σ → σ × Bool} {P : ι → σ → Prop} {inputs : List ι} {s : σ}
    (h : Throughout step P inputs s) (n : ℕ) : Throughout step P (inputs.take n) s := by
  induction inputs generalizing s n with
  | nil => simpa using h
  | cons input inputs ih =>
    cases n with
    | zero => trivial
    | succ n => exact ⟨h.1, fun hgoes => ih (h.2 hgoes) n⟩

/-- What holds of every input can be used at every step. -/
theorem Throughout.and {step : ι → σ → σ × Bool} {P : ι → σ → Prop} {R : ι → Prop}
    {inputs : List ι} {s : σ} (h : Throughout step P inputs s) (hR : ∀ input ∈ inputs, R input) :
    Throughout step (fun input s => P input s ∧ R input) inputs s := by
  induction inputs generalizing s with
  | nil => trivial
  | cons input inputs ih =>
    obtain ⟨hfirst, hrest⟩ := List.forall_mem_cons.mp hR
    exact ⟨⟨h.1, hfirst⟩, fun hgoes => ih (h.2 hgoes) hrest⟩

/-- What holds at every moment of a run: it holds at first, and after every step. -/
theorem forall_run_take_iff {step : ι → σ → σ × Bool} {Q : σ → Prop} {inputs : List ι} {s : σ} :
    (∀ n, Q (run step (inputs.take n) s).1) ↔
      Q s ∧ Throughout step (fun input s => Q (step input s).1) inputs s := by
  induction inputs generalizing s with
  | nil => simp [run, Throughout]
  | cons input inputs ih =>
    constructor
    · intro h
      have hfirst : Q (step input s).1 := by simpa [run_singleton] using h 1
      refine ⟨h 0, hfirst, fun hgoes => (ih.mp fun n => ?_).2⟩
      simpa [run_cons_of_goes hgoes] using h (n + 1)
    · rintro ⟨hs, hfirst, hrest⟩ n
      cases n with
      | zero => exact hs
      | succ n =>
        rw [List.take_succ_cons, run_cons]
        split
        · exact hfirst
        · rename_i hgoes
          simp only [Bool.not_eq_true] at hgoes
          exact ih.mpr ⟨hfirst, hrest hgoes⟩ n

/-- Two conditions on steps that agree where an invariant holds, which the steps under the first
one keep. -/
theorem throughout_congr {step : ι → σ → σ × Bool} {P Q : ι → σ → Prop} {I : σ → Prop}
    (hiff : ∀ input s, I s → (P input s ↔ Q input s))
    (hstep : ∀ input s, I s → P input s → (step input s).2 = false → I (step input s).1)
    {inputs : List ι} {s : σ} (hs : I s) :
    Throughout step P inputs s ↔ Throughout step Q inputs s := by
  induction inputs generalizing s with
  | nil => exact Iff.rfl
  | cons input inputs ih =>
    have hfirst := hiff input s hs
    exact ⟨fun h => ⟨hfirst.mp h.1, fun hgoes => (ih (hstep input s hs h.1 hgoes)).mp (h.2 hgoes)⟩,
      fun h => ⟨hfirst.mpr h.1,
        fun hgoes => (ih (hstep input s hs (hfirst.mpr h.1) hgoes)).mpr (h.2 hgoes)⟩⟩

theorem Throughout.imp {step : ι → σ → σ × Bool} {P Q : ι → σ → Prop}
    (hPQ : ∀ input s, P input s → Q input s) {inputs : List ι} {s : σ}
    (h : Throughout step P inputs s) : Throughout step Q inputs s := by
  induction inputs generalizing s with
  | nil => trivial
  | cons input inputs ih => exact ⟨hPQ _ _ h.1, fun hgoes => ih (h.2 hgoes)⟩

end EdgeScope.Runs
