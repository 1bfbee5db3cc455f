import Mathlib.Data.List.Basic
import Mathlib.Data.List.Infix
import Mathlib.Tactic.Common

/-!
# Consecutive pieces of a list

Pieces of a list, each with the number of elements before it. As many elements as the list
has are the list.
-/

namespace EdgeScope.Text

variable {α : Type*}

/-- Consecutive non-empty pieces of `l` from position `i` on, of at most `limit` elements. -/
def Pieces (limit : ℕ) (l : List α) : ℕ → List (ℕ × List α) → Prop
  | _, [] => True
  | i, (j, piece) :: pieces =>
    j = i ∧ piece ≠ [] ∧ piece.length ≤ limit ∧ piece <+: l.drop i ∧
      Pieces limit l (i + piece.length) pieces

namespace Pieces

variable {limit i : ℕ} {l : List α} {pieces : List (ℕ × List α)}

theorem of_prefix (h : Pieces limit l i pieces) {front : List (ℕ × List α)}
    (hfront : front <+: pieces) : Pieces limit l i front := by
  induction front generalizing i pieces with
  | nil => trivial
  | cons p front ih =>
    obtain ⟨rest, rfl⟩ := hfront
    obtain ⟨hj, hne, hlimit, hpre, hrest⟩ := h
    exact ⟨hj, hne, hlimit, hpre, ih hrest (List.prefix_append ..)⟩

theorem append (h : Pieces limit l i pieces) {piece : List α} (hne : piece ≠ [])
    (hlimit : piece.length ≤ limit)
    (hpre : piece <+: l.drop (i + (pieces.flatMap Prod.snd).length)) :
    Pieces limit l i (pieces ++ [(i + (pieces.flatMap Prod.snd).length, piece)]) := by
  induction pieces generalizing i with
  | nil => exact ⟨rfl, hne, hlimit, hpre, trivial⟩
  | cons p pieces ih =>
    obtain ⟨hj, hne', hlimit', hpre', hrest⟩ := h
    have hlength : i + ((p :: pieces).flatMap Prod.snd).length =
        i + p.2.length + (pieces.flatMap Prod.snd).length := by
      rw [List.flatMap_cons, List.length_append]
      omega
    rw [hlength] at hpre ⊢
    exact ⟨hj, hne', hlimit', hpre', ih hrest hpre⟩

/-- Together they are what the list has from there on. -/
theorem flatMap_prefix (h : Pieces limit l i pieces) : pieces.flatMap Prod.snd <+: l.drop i := by
  induction pieces generalizing i with
  | nil => exact List.nil_prefix
  | cons p pieces ih =>
    obtain ⟨-, -, -, ⟨rest, hrest⟩, htail⟩ := h
    have hafter : l.drop (i + p.2.length) = rest := by
      rw [← List.drop_drop, ← hrest, List.drop_left]
    rw [List.flatMap_cons, ← hrest, List.prefix_append_right_inj, ← hafter]
    exact ih htail

end Pieces
end EdgeScope.Text
