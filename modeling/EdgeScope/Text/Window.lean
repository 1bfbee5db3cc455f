import Mathlib.Data.List.Basic
import Mathlib.Data.List.DropRight
import Mathlib.Data.List.Nodup
import Mathlib.Tactic.Common

/-!
# Sliding windows

A queue that drops its front whenever it grows beyond `n` elements holds the last
`n` elements pushed. `List.rtake n` is those elements.
-/

namespace EdgeScope.Text

variable {α : Type*}

@[simp] theorem length_rtake (l : List α) (n : ℕ) : (l.rtake n).length = min n l.length := by
  simp only [List.rtake, List.length_drop]
  omega

theorem rtake_of_length_le {l : List α} {n : ℕ} (h : l.length ≤ n) : l.rtake n = l := by
  simp [List.rtake, Nat.sub_eq_zero_of_le h]

theorem rtake_append_of_le_length {y : List α} {n : ℕ} (x : List α) (h : n ≤ y.length) :
    (x ++ y).rtake n = y.rtake n := by
  have hn : x.length + y.length - n = x.length + (y.length - n) := by omega
  simp only [List.rtake, List.length_append, hn, List.drop_length_add_append]

/-- Keeping the last `n` elements at every stage keeps the last `n` of all. -/
theorem rtake_rtake_append (x y : List α) (n : ℕ) :
    (x.rtake n ++ y).rtake n = (x ++ y).rtake n := by
  by_cases h : x.length ≤ n
  · rw [rtake_of_length_le h]
  · have hx : x ++ y = x.take (x.length - n) ++ (x.rtake n ++ y) := by
      rw [← List.append_assoc, List.rtake, List.take_append_drop]
    rw [hx]
    exact (rtake_append_of_le_length _ (by simp; omega)).symm

theorem rtake_tail {l : List α} {n : ℕ} (h : n ≤ l.tail.length) : l.tail.rtake n = l.rtake n := by
  cases l with
  | nil => rfl
  | cons a l => exact (rtake_append_of_le_length [a] h).symm

theorem map_rtake {β : Type*} (f : α → β) (l : List α) (n : ℕ) :
    (l.map f).rtake n = (l.rtake n).map f := by
  simp [List.rtake]

theorem mem_of_mem_rtake {l : List α} {n : ℕ} {a : α} (h : a ∈ l.rtake n) : a ∈ l :=
  List.mem_of_mem_drop h

theorem rtake_sublist (l : List α) (n : ℕ) : (l.rtake n).Sublist l := List.drop_sublist _ _

/-- Where `f` tells the elements apart, those in the window are those not before it. -/
theorem mem_rtake_iff {β : Type*} (f : α → β) {l : List α} (h : (l.map f).Nodup) {n : ℕ} {a : α} :
    a ∈ l.rtake n ↔ a ∈ l ∧ f a ∉ (l.take (l.length - n)).map f := by
  have hsplit : l.take (l.length - n) ++ l.rtake n = l := List.take_append_drop ..
  constructor
  · intro ha
    refine ⟨mem_of_mem_rtake ha, fun hbefore => ?_⟩
    rw [← hsplit, List.map_append] at h
    exact List.disjoint_of_nodup_append h hbefore (List.mem_map_of_mem ha)
  · rintro ⟨ha, hbefore⟩
    rw [← hsplit] at ha
    obtain ha | ha := List.mem_append.mp ha
    · exact absurd (List.mem_map_of_mem ha) hbefore
    · exact ha

theorem mem_rtake_append_cons {before after : List α} {a : α} {n : ℕ} (h : after.length < n) :
    a ∈ (before ++ a :: after).rtake n := by
  have hdrop : (before ++ a :: after).length - n ≤ before.length := by
    rw [List.length_append, List.length_cons]
    omega
  rw [List.rtake, List.drop_append_of_le_length hdrop]
  simp

theorem cons_sublist_append_iff {a : α} {l r : List α} :
    (a :: r).Sublist (l ++ r) ↔ a ∈ l := by
  constructor
  · intro h
    obtain ⟨front, back, hsplit, hfront, hback⟩ := List.sublist_append_iff.mp h
    cases front with
    | nil =>
      -- what follows `a` would have to be found in a shorter list
      have hle := hback.length_le
      rw [← List.nil_append back, ← hsplit, List.length_cons] at hle
      omega
    | cons b front =>
      obtain rfl : a = b := (List.cons.inj hsplit).1
      exact hfront.subset List.mem_cons_self
  · intro h
    exact (List.singleton_sublist.mpr h).append_right r

/-- A window onto a list with another first element is harmless when it has moved past that
element, or finds it elsewhere. -/
theorem rtake_cons_sublist_iff {a : α} {l r : List α} {n : ℕ} :
    ((a :: r).rtake n).Sublist (l ++ r) ↔ n < (a :: r).length ∨ a ∈ l := by
  by_cases h : n < (a :: r).length
  · have hle : n ≤ (a :: r).tail.length := by
      rw [List.length_tail]
      omega
    rw [← rtake_tail hle]
    simp only [h, true_or, iff_true, List.tail_cons]
    exact (rtake_sublist r n).trans (List.sublist_append_right l r)
  · rw [rtake_of_length_le (by omega), cons_sublist_append_iff]
    exact (or_iff_right h).symm

/-- Push at the back, and drop the front of a queue that has become too long. -/
def pushBounded (n : ℕ) (queue : List α) (a : α) : List α :=
  if n < (queue ++ [a]).length then (queue ++ [a]).tail else queue ++ [a]

theorem pushBounded_rtake (n : ℕ) (l : List α) (a : α) :
    pushBounded n (l.rtake n) a = (l ++ [a]).rtake n := by
  have hlen : (l.rtake n ++ [a]).length = min n l.length + 1 := by simp
  unfold pushBounded
  rw [hlen]
  split
  · -- the window is full: its front is the element that leaves
    have htail : (l.rtake n ++ [a]).tail.length = n := by
      rw [List.length_tail, hlen]
      omega
    have hsplit : l ++ [a] = l.take (l.length - n) ++ (l.rtake n ++ [a]) := by
      rw [← List.append_assoc, List.rtake, List.take_append_drop]
    rw [hsplit, rtake_append_of_le_length _ (by omega), ← rtake_tail htail.ge]
    exact (rtake_of_length_le htail.le).symm
  · rw [rtake_of_length_le (by omega), rtake_of_length_le (by simp; omega)]

end EdgeScope.Text
