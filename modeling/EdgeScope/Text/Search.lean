import EdgeScope.Text.Bytes

/-!
# Where a character is found

The first and the last position of a character, as the two parts it separates.
-/

namespace EdgeScope.Text

variable {α : Type*} [DecidableEq α] {a : α}

theorem findChar_of_notMem {s : List α} (h : a ∉ s) : findChar a s = none := by
  simpa [findChar] using h

theorem findChar_separator {x : List α} (h : a ∉ x) (y : List α) :
    findChar a (x ++ a :: y) = some x.length := by
  induction x with
  | nil => simp [findChar, List.idxOf?_cons]
  | cons b x ih =>
    have hb : b ≠ a := fun e => h (e ▸ List.mem_cons_self)
    have hx := ih fun hm => h (List.mem_cons_of_mem _ hm)
    simp only [findChar] at hx
    simp [findChar, List.idxOf?_cons, hb, hx]

/-- A first position is where a first part ends. -/
theorem findChar_eq_some_iff {s : List α} {i : ℕ} :
    findChar a s = some i ↔ ∃ x y, s = x ++ a :: y ∧ a ∉ x ∧ i = x.length := by
  constructor
  · intro h
    by_cases hmem : a ∈ s
    · obtain ⟨x, y, rfl, hx⟩ := List.eq_append_cons_of_mem hmem
      rw [findChar_separator hx] at h
      exact ⟨x, y, rfl, hx, (Option.some.inj h).symm⟩
    · rw [findChar_of_notMem hmem] at h
      cases h
  · rintro ⟨x, y, rfl, hx, rfl⟩
    exact findChar_separator hx y

theorem rfindChar_of_notMem {s : List α} (h : a ∉ s) : rfindChar a s = none := by
  simp [rfindChar, h]

theorem rfindChar_separator (x : List α) {y : List α} (h : a ∉ y) :
    rfindChar a (x ++ a :: y) = some x.length := by
  have hreverse : (x ++ a :: y).reverse = y.reverse ++ a :: x.reverse := by simp
  have hfind := findChar_separator (x := y.reverse) (by simpa using h) x.reverse
  rw [findChar] at hfind
  rw [rfindChar, hreverse, hfind, Option.map_some]
  simp only [List.length_append, List.length_cons, List.length_reverse, Option.some.injEq]
  omega

/-- A last position is where a last part begins. -/
theorem rfindChar_eq_some_iff {s : List α} {i : ℕ} :
    rfindChar a s = some i ↔ ∃ x y, s = x ++ a :: y ∧ a ∉ y ∧ i = x.length := by
  constructor
  · intro h
    by_cases hmem : a ∈ s
    · obtain ⟨y, x, hreverse, hy⟩ := List.eq_append_cons_of_mem (List.mem_reverse.mpr hmem)
      have hs : s = x.reverse ++ a :: y.reverse := by
        rw [← List.reverse_reverse s, hreverse]
        simp
      have hy' : a ∉ y.reverse := by simpa using hy
      rw [hs, rfindChar_separator _ hy'] at h
      exact ⟨x.reverse, y.reverse, hs, hy', (Option.some.inj h).symm⟩
    · rw [rfindChar_of_notMem hmem] at h
      cases h
  · rintro ⟨x, y, rfl, hy, rfl⟩
    exact rfindChar_separator x hy

omit [DecidableEq α] in
@[simp] theorem take_separator (x y : List α) (a : α) : (x ++ a :: y).take x.length = x :=
  List.take_left

omit [DecidableEq α] in
@[simp] theorem drop_separator (x y : List α) (a : α) : (x ++ a :: y).drop (x.length + 1) = y := by
  rw [List.drop_length_add_append, List.drop_one, List.tail_cons]

end EdgeScope.Text
