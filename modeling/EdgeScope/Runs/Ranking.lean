import Mathlib.Data.List.Basic
import Mathlib.Tactic.Common

/-!
# Machines that come to rest

Some inputs lower the rank of the state, where an invariant holds. A run of such inputs is no
longer than the rank of the state it begins in, and where one of them can always be taken before
the machine rests, there is a run to rest.
-/

namespace EdgeScope.Runs

variable {σ ι : Type*}

def follow (step : ι → σ → Option σ) (inputs : List ι) (s : σ) : Option σ :=
  inputs.foldlM (fun s input => step input s) s

variable {step : ι → σ → Option σ}

@[simp] theorem follow_nil (s : σ) : follow step [] s = some s := rfl

theorem follow_cons_eq_some_iff {input : ι} {inputs : List ι} {s t : σ} :
    follow step (input :: inputs) s = some t ↔
      ∃ s', step input s = some s' ∧ follow step inputs s' = some t := by
  rw [follow, List.foldlM_cons]
  exact Option.bind_eq_some_iff

theorem follow_append_eq_some_iff {inputs more : List ι} {s t : σ} :
    follow step (inputs ++ more) s = some t ↔
      ∃ s', follow step inputs s = some s' ∧ follow step more s' = some t := by
  rw [follow, List.foldlM_append]
  exact Option.bind_eq_some_iff

theorem follow_keeps {I : σ → Prop} (hkeeps : ∀ input s s', I s → step input s = some s' → I s')
    {inputs : List ι} {s t : σ} (hs : I s) (h : follow step inputs s = some t) : I t := by
  induction inputs generalizing s with
  | nil =>
    obtain rfl := Option.some.inj h
    exact hs
  | cons input inputs ih =>
    obtain ⟨s', hstep, hrest⟩ := follow_cons_eq_some_iff.mp h
    exact ih (hkeeps input s s' hs hstep) hrest

variable {I : σ → Prop} {P : ι → Prop} {rank : σ → ℕ}
  (hkeeps : ∀ input s s', I s → step input s = some s' → I s')
  (hrank : ∀ input s s', I s → P input → step input s = some s' → rank s' < rank s)

include hkeeps hrank

theorem length_add_rank_le {inputs : List ι} (hP : ∀ input ∈ inputs, P input) {s t : σ} (hs : I s)
    (h : follow step inputs s = some t) : inputs.length + rank t ≤ rank s := by
  induction inputs generalizing s with
  | nil =>
    obtain rfl := Option.some.inj h
    simp
  | cons input inputs ih =>
    obtain ⟨s', hstep, hrest⟩ := follow_cons_eq_some_iff.mp h
    have hfirst := hrank input s s' hs (hP input List.mem_cons_self) hstep
    have hlater := ih (fun input hmem => hP input (List.mem_cons_of_mem _ hmem))
      (hkeeps input s s' hs hstep) hrest
    rw [List.length_cons]
    omega

/-- The induction is on the rank. -/
theorem exists_follow_rest {Rest : σ → Prop}
    (hprogress : ∀ s, I s → ¬ Rest s → ∃ input s', P input ∧ step input s = some s') {s : σ}
    (hs : I s) :
    ∃ inputs t, (∀ input ∈ inputs, P input) ∧ follow step inputs s = some t ∧ Rest t := by
  induction hn : rank s using Nat.strongRecOn generalizing s with
  | _ n ih =>
    by_cases hrest : Rest s
    · exact ⟨[], s, by simp, rfl, hrest⟩
    · obtain ⟨input, s', hP, hstep⟩ := hprogress s hs hrest
      have hlower := hrank input s s' hs hP hstep
      obtain ⟨inputs, t, hinputs, hfollow, ht⟩ := ih (rank s') (by omega)
        (hkeeps input s s' hs hstep) rfl
      refine ⟨input :: inputs, t, ?_, follow_cons_eq_some_iff.mpr ⟨s', hstep, hfollow⟩, ht⟩
      exact List.forall_mem_cons.mpr ⟨hP, hinputs⟩

end EdgeScope.Runs
