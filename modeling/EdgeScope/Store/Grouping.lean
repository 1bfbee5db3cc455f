import Mathlib.Data.List.Basic
import Mathlib.Data.List.Induction
import Mathlib.Tactic.Common

/-!
# Maps filled from a list

An ordered map whose entry for a key is created when the first element with that key is met and
updated with every further one, and a map that keeps the first value offered for a key.
-/

namespace EdgeScope.Store
open Std

/-- The values that elements of the list have, in the order of the elements. -/
inductive Picks {α β : Type*} (has : α → β → Prop) : List α → List β → Prop
  | nil : Picks has [] []
  | pick {a : α} {b : β} {as : List α} {bs : List β} :
    has a b → Picks has as bs → Picks has (a :: as) (b :: bs)
  | skip {a : α} {as : List α} {bs : List β} :
    (∀ b, ¬ has a b) → Picks has as bs → Picks has (a :: as) bs

theorem picks_iff_filterMap {α β : Type*} {has : α → β → Prop} {f : α → Option β}
    (h : ∀ a b, has a b ↔ f a = some b) {as : List α} {bs : List β} :
    Picks has as bs ↔ bs = as.filterMap f := by
  constructor
  · intro hpicks
    induction hpicks with
    | nil => rfl
    | pick hab _ ih => rw [List.filterMap_cons_some ((h _ _).mp hab), ih]
    | skip hnone _ ih =>
      have hskipped := Option.eq_none_iff_forall_ne_some.mpr fun b hb => hnone b ((h _ b).mpr hb)
      rw [List.filterMap_cons_none hskipped, ih]
  · rintro rfl
    induction as with
    | nil => exact .nil
    | cons a as ih =>
      cases ha : f a with
      | none =>
        rw [List.filterMap_cons_none ha]
        refine .skip (fun b hb => ?_) ih
        rw [h, ha] at hb
        cases hb
      | some b =>
        rw [List.filterMap_cons_some ha]
        exact .pick ((h a b).mpr ha) ih

section Group

variable {α β κ : Type*} {cmp : κ → κ → Ordering} [TransCmp cmp] [LawfulEqCmp cmp] [DecidableEq κ]
  (key : α → Option κ) (update : α → β → β) (empty : β)

/-- `m[k]` with its entry for `a` updated. An element without a key is left out. -/
def addTo (m : TreeMap κ β cmp) (a : α) : TreeMap κ β cmp :=
  match key a with
  | none => m
  | some k => m.alter k fun b => some (update a (b.getD empty))

def group (cmp : κ → κ → Ordering) (l : List α) : TreeMap κ β cmp :=
  l.foldl (addTo key update empty) ∅

def under (k : κ) (l : List α) : List α := l.filter fun a => key a = some k

/-- The entry of a key is made of the elements with that key, in their order. -/
theorem getElem?_group (l : List α) (k : κ) :
    (group key update empty cmp l)[k]? =
      if under key k l = [] then none
      else some ((under key k l).foldl (fun b a => update a b) empty) := by
  induction l using List.reverseRecOn with
  | nil => simp [group, under]
  | append_singleton l a ih =>
    have hstep : group key update empty cmp (l ++ [a]) =
        addTo key update empty (group key update empty cmp l) a := by
      rw [group, List.foldl_append]
      rfl
    have hunder : under key k (l ++ [a]) =
        under key k l ++ if key a = some k then [a] else [] := by
      rw [under, List.filter_append, under]
      by_cases hkey : key a = some k <;> simp [hkey]
    rw [hstep, hunder, addTo]
    by_cases hkey : key a = some k
    · have hentry : ((group key update empty cmp l)[k]?).getD empty =
          (under key k l).foldl (fun b a => update a b) empty := by
        rw [ih]
        split
        · rename_i hnone
          rw [hnone]
          rfl
        · rfl
      rw [if_pos hkey, if_neg (by simp), List.foldl_append]
      simp only [hkey, TreeMap.getElem?_alter_self, hentry, List.foldl_cons, List.foldl_nil]
    · rw [if_neg hkey, List.append_nil, ← ih]
      split
      · rfl
      · rename_i k' hk'
        have hne : cmp k' k ≠ .eq := fun heq => hkey (hk'.trans (congrArg some
          (LawfulEqCmp.eq_of_compare heq)))
        rw [TreeMap.getElem?_alter, if_neg hne]

theorem mem_group_iff {l : List α} {k : κ} {b : β} :
    (k, b) ∈ (group key update empty cmp l).toList ↔
      (∃ a ∈ l, key a = some k) ∧
        b = (under key k l).foldl (fun b a => update a b) empty := by
  have hnone : under key k l = [] ↔ ¬ ∃ a ∈ l, key a = some k := by
    simp [under]
  rw [TreeMap.mem_toList_iff_getElem?_eq_some, getElem?_group]
  split
  · rename_i hempty
    exact iff_of_false nofun fun h => hnone.mp hempty h.1
  · rename_i hsome
    rw [Option.some.injEq, and_iff_right (not_not.mp (hnone.not.mp hsome)), eq_comm]

omit [DecidableEq κ] in
/-- Keys in strict order tell lists with the same elements together. -/
theorem eq_of_increasing {f : β → κ} {l l' : List β}
    (h : (l.map f).Pairwise fun a b => cmp a b = .lt)
    (h' : (l'.map f).Pairwise fun a b => cmp a b = .lt) (hmem : ∀ b, b ∈ l ↔ b ∈ l') : l = l' := by
  have hnodup {l : List β} (h : (l.map f).Pairwise fun a b => cmp a b = .lt) : l.Nodup := by
    refine (List.pairwise_map.mp h).imp ?_
    rintro a _ hlt rfl
    have hself : cmp (f a) (f a) = .eq := ReflCmp.compare_self
    rw [hself] at hlt
    cases hlt
  refine List.Perm.eq_of_pairwise ?_ (List.pairwise_map.mp h) (List.pairwise_map.mp h')
    ((List.perm_ext_iff_of_nodup (hnodup h) (hnodup h')).mpr hmem)
  intro a b _ _ hlt hgt
  rw [OrientedCmp.gt_of_lt hlt] at hgt
  cases hgt

end Group

section Emplace

variable {κ β : Type*} [BEq κ] [LawfulBEq κ] [Hashable κ]

/-- `emplace` does nothing where the key is there already, so the first value stays. -/
theorem getElem?_foldl_insertIfNew (l : List (κ × β)) (m : HashMap κ β) (k : κ) :
    (l.foldl (fun m p => m.insertIfNew p.1 p.2) m)[k]? = m[k]?.or (l.lookup k) := by
  induction l generalizing m with
  | nil => simp
  | cons p l ih =>
    rw [List.foldl_cons, ih, HashMap.getElem?_insertIfNew, List.lookup_cons]
    by_cases hk : k = p.1
    · subst hk
      by_cases hmem : p.1 ∈ m <;> simp [hmem]
    · have hne : (p.1 == k) = false := beq_eq_false_iff_ne.mpr (Ne.symm hk)
      have hne' : (k == p.1) = false := beq_eq_false_iff_ne.mpr hk
      simp [hne, hne']

end Emplace

end EdgeScope.Store
