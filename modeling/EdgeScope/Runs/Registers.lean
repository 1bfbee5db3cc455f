import Mathlib.Data.List.Basic
import Mathlib.Tactic.Common

/-!
# Registers that are written one after another

A write determines some registers of a state and leaves the others alone. After any number of
writes a register holds the last value that was written to it, and writes to different registers
may change places.
-/

namespace EdgeScope.Runs

variable {σ ω β : Type*}

/-- The last value that is written to a register; `value` tells what a write has for it. -/
def lastWrite (value : ω → Option β) (writes : List ω) : Option β :=
  (writes.filterMap value).getLast?

@[simp] theorem lastWrite_nil (value : ω → Option β) : lastWrite value [] = none := rfl

theorem lastWrite_cons (value : ω → Option β) (w : ω) (writes : List ω) :
    lastWrite value (w :: writes) = (lastWrite value writes).or (value w) := by
  unfold lastWrite
  cases hw : value w with
  | none => rw [List.filterMap_cons_none hw, Option.or_none]
  | some b =>
    rw [List.filterMap_cons_some hw, List.getLast?_cons]
    cases (writes.filterMap value).getLast? <;> rfl

theorem lastWrite_map_some (value : ω → Option β) (writes : List ω) :
    lastWrite (fun w => (value w).map some) writes = (lastWrite value writes).map some := by
  unfold lastWrite
  rw [← List.getLast?_map, List.map_filterMap]

theorem lastWrite_eq_none_iff {value : ω → Option β} {writes : List ω} :
    lastWrite value writes = none ↔ ∀ w ∈ writes, value w = none := by
  rw [lastWrite, List.getLast?_eq_none_iff, List.filterMap_eq_nil_iff]

/-- The write that counts is the one after which the register is not written. -/
theorem lastWrite_eq_some_iff {value : ω → Option β} {writes : List ω} {b : β} :
    lastWrite value writes = some b ↔ ∃ front w back, writes = front ++ w :: back ∧
      value w = some b ∧ ∀ w' ∈ back, value w' = none := by
  constructor
  · intro h
    induction writes with
    | nil => cases h
    | cons w writes ih =>
      rw [lastWrite_cons] at h
      cases hrest : lastWrite value writes with
      | none =>
        rw [hrest, Option.none_or] at h
        exact ⟨[], w, writes, rfl, h, lastWrite_eq_none_iff.mp hrest⟩
      | some b' =>
        rw [hrest, Option.some_or] at h
        obtain ⟨front, w', back, rfl, hvalue, hback⟩ := ih (hrest.trans h)
        exact ⟨w :: front, w', back, rfl, hvalue, hback⟩
  · rintro ⟨front, w, back, rfl, hvalue, hback⟩
    induction front with
    | nil => rw [List.nil_append, lastWrite_cons, lastWrite_eq_none_iff.mpr hback, hvalue]; rfl
    | cons w' front ih => rw [List.cons_append, lastWrite_cons, ih]; rfl

theorem get_foldl {write : σ → ω → σ} {get : σ → β} {value : ω → Option β}
    (h : ∀ s w, get (write s w) = (value w).getD (get s)) (writes : List ω) (s : σ) :
    get (writes.foldl write s) = (lastWrite value writes).getD (get s) := by
  induction writes generalizing s with
  | nil => rfl
  | cons w writes ih =>
    rw [List.foldl_cons, ih, lastWrite_cons, h]
    cases lastWrite value writes <;> rfl

theorem foldl_swap {write : σ → ω → σ} {w w' : ω}
    (h : ∀ s, write (write s w) w' = write (write s w') w) (before after : List ω) (s : σ) :
    (before ++ w :: w' :: after).foldl write s = (before ++ w' :: w :: after).foldl write s := by
  simp only [List.foldl_append, List.foldl_cons, h]

/-- A write that changes nothing may be left out. -/
theorem foldl_skip {write : σ → ω → σ} {w : ω} (h : ∀ s, write s w = s) (before after : List ω)
    (s : σ) : (before ++ w :: after).foldl write s = (before ++ after).foldl write s := by
  simp only [List.foldl_append, List.foldl_cons, h]

/-- Writes with one effect may stand for each other. -/
theorem foldl_replace {write : σ → ω → σ} {w w' : ω} (h : ∀ s, write s w = write s w')
    (before after : List ω) (s : σ) :
    (before ++ w :: after).foldl write s = (before ++ w' :: after).foldl write s := by
  simp only [List.foldl_append, List.foldl_cons, h]

end EdgeScope.Runs
