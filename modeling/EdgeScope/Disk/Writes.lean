import EdgeScope.Disk.FileTree
import Mathlib.Data.List.Nodup

/-!
# Writing a list of entries

The entries are put into the tree one after another. Where their paths are distinct, none of
them is lost, and the order does not show.
-/

namespace EdgeScope.FileTree

abbrev Entry := Path × Node

def write (tree : FileTree) (entries : List Entry) : FileTree :=
  entries.foldl (fun tree entry => tree.set entry.1 (some entry.2)) tree

def below (tree : FileTree) (path : Path) : FileTree := fun p => tree (path ++ p)

/-- The entries of a directory, with the paths of the tree it is in. -/
def placedIn (path : Path) (entries : List Entry) : List Entry :=
  entries.map fun entry => (path ++ entry.1, entry.2)

variable {tree : FileTree} {path : Path} {entries entries' : List Entry}

@[simp] theorem write_nil (tree : FileTree) : tree.write [] = tree := rfl

@[simp] theorem write_cons (tree : FileTree) (entry : Entry) (entries : List Entry) :
    tree.write (entry :: entries) = (tree.set entry.1 (some entry.2)).write entries := rfl

theorem write_append (tree : FileTree) (entries entries' : List Entry) :
    tree.write (entries ++ entries') = (tree.write entries).write entries' :=
  List.foldl_append

theorem placedIn_append (path : Path) (entries entries' : List Entry) :
    placedIn path (entries ++ entries') = placedIn path entries ++ placedIn path entries' :=
  List.map_append

theorem below_set (tree : FileTree) (path p : Path) (node : Option Node) :
    (tree.set (path ++ p) node).below path = (tree.below path).set p node := by
  funext q
  by_cases hq : q = p
  · rw [hq, below, set_self, set_self]
  · have hne : path ++ q ≠ path ++ p := fun h => hq (List.append_cancel_left h)
    rw [below, set_of_ne hne, set_of_ne hq, below]

theorem below_write (tree : FileTree) (path : Path) (entries : List Entry) :
    (tree.write (placedIn path entries)).below path = (tree.below path).write entries := by
  induction entries generalizing tree with
  | nil => rfl
  | cons entry entries ih =>
    rw [write_cons, ← below_set]
    exact ih _

theorem write_eq_some_iff (h : (entries.map Prod.fst).Nodup) (tree : FileTree) (p : Path)
    (node : Node) :
    tree.write entries p = some node ↔
      (p, node) ∈ entries ∨ p ∉ entries.map Prod.fst ∧ tree p = some node := by
  induction entries generalizing tree with
  | nil => simp
  | cons entry entries ih =>
    rw [List.map_cons, List.nodup_cons] at h
    rw [write_cons, ih h.2]
    by_cases hp : p = entry.1
    · subst hp
      have hnot : (entry.1, node) ∉ entries := fun hmem => h.1 (List.mem_map.mpr ⟨_, hmem, rfl⟩)
      simp [hnot, h.1, Prod.ext_iff, eq_comm]
    · have hne : (p, node) ≠ entry := fun he => hp (congrArg Prod.fst he)
      simp [set_of_ne hp, hp, hne]

end EdgeScope.FileTree
