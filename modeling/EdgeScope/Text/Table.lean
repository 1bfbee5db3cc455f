import EdgeScope.Text.Lines

/-!
# Tables

A table is printed line by line, a separator between the cells of a line. Nothing is escaped, so
what is read back is the table exactly where no cell holds a separator or ends a line.
-/

namespace EdgeScope.Text

variable {α : Type*} {t d : α}

/-- A line of cells. -/
def printRow (t d : α) (cells : List (List α)) : List α := [t].intercalate cells ++ [d]

def printTable (t d : α) (rows : List (List (List α))) : List α := rows.flatMap (printRow t d)

/-- A cell that can stand in a table. -/
def IsCell (t d : α) (cell : List α) : Prop := t ∉ cell ∧ d ∉ cell

theorem IsCell.append {x y : List α} (hx : IsCell t d x) (hy : IsCell t d y) :
    IsCell t d (x ++ y) := by
  simp only [IsCell, List.mem_append, not_or]
  exact ⟨⟨hx.1, hy.1⟩, hx.2, hy.2⟩

theorem notMem_intercalate {cells : List (List α)} (htd : d ≠ t) (h : ∀ cell ∈ cells, d ∉ cell) :
    d ∉ [t].intercalate cells := by
  induction cells with
  | nil => simp
  | cons cell cells ih =>
    rw [List.forall_mem_cons] at h
    cases cells with
    | nil => simpa using h.1
    | cons next cells =>
      rw [List.intercalate_cons_cons]
      simp only [List.mem_append, List.mem_singleton, not_or]
      exact ⟨⟨h.1, htd⟩, ih h.2⟩

variable [DecidableEq α]

instance (cell : List α) : Decidable (IsCell t d cell) := inferInstanceAs (Decidable (_ ∧ _))

/-- The cells of every line. -/
def readTable (t d : α) (text : List α) : List (List (List α)) :=
  (getlines d text).map (List.splitOn t)

theorem getlines_intercalate {pieces : List (List α)} (hnotMem : ∀ piece ∈ pieces, d ∉ piece)
    (hne : ∀ piece ∈ pieces, piece ≠ []) : getlines d ([d].intercalate pieces) = pieces := by
  induction pieces with
  | nil => rfl
  | cons piece pieces ih =>
    rw [List.forall_mem_cons] at hnotMem hne
    cases pieces with
    | nil => rw [List.intercalate_singleton, getlines_of_notMem hnotMem.1, if_neg hne.1]
    | cons next pieces =>
      rw [List.intercalate_cons_cons, List.append_assoc, List.singleton_append,
        getlines_append_cons hnotMem.1, ih hnotMem.2 hne.2]

theorem notMem_of_mem_getlines {s line : List α} (h : line ∈ getlines d s) : d ∉ line := by
  induction s using pieces_induction d with
  | rest s hs =>
    rw [getlines_of_notMem hs] at h
    split_ifs at h with hempty
    · cases h
    · rwa [List.mem_singleton.mp h]
  | piece p s hp ih =>
    rw [getlines_append_cons hp, List.mem_cons] at h
    obtain rfl | h := h
    · exact hp
    · exact ih h

theorem of_mem_splitOn {s cell : List α} (h : cell ∈ s.splitOn t) : t ∉ cell ∧ cell ⊆ s := by
  induction s using pieces_induction t with
  | rest s hs =>
    rw [List.splitOn_eq_singleton hs, List.mem_singleton] at h
    rw [h]
    exact ⟨hs, List.Subset.refl _⟩
  | piece p s hp ih =>
    rw [List.splitOn_append_cons_self_of_not_mem hp, List.mem_cons] at h
    obtain rfl | h := h
    · exact ⟨hp, List.subset_append_left _ _⟩
    · obtain ⟨hcell, hsub⟩ := ih h
      exact ⟨hcell, fun b hb => List.mem_append_right p (List.mem_cons_of_mem t (hsub hb))⟩

/-- Whatever text a table is read from, no cell holds a separator or ends a line. -/
theorem isCell_of_mem_readTable {text : List α} {cells : List (List α)} {cell : List α}
    (hcells : cells ∈ readTable t d text) (hcell : cell ∈ cells) : IsCell t d cell := by
  obtain ⟨line, hline, rfl⟩ := List.mem_map.mp hcells
  obtain ⟨ht, hsub⟩ := of_mem_splitOn hcell
  exact ⟨ht, fun hd => notMem_of_mem_getlines hline (hsub hd)⟩

theorem readTable_printTable {rows : List (List (List α))} (htd : d ≠ t)
    (hne : ∀ cells ∈ rows, cells ≠ []) (h : ∀ cells ∈ rows, ∀ cell ∈ cells, IsCell t d cell) :
    readTable t d (printTable t d rows) = rows := by
  induction rows with
  | nil => rfl
  | cons cells rows ih =>
    rw [List.forall_mem_cons] at hne h
    have hline := notMem_intercalate htd fun cell hcell => (h.1 cell hcell).2
    have hrest := ih hne.2 h.2
    rw [readTable] at hrest
    rw [printTable, List.flatMap_cons, printRow, List.append_assoc, List.singleton_append,
      readTable, getlines_append_cons hline, List.map_cons, ← printTable, hrest,
      List.splitOn_intercalate t (fun cell hcell => (h.1 cell hcell).1) hne.1]

end EdgeScope.Text
