import EdgeScope.Text.Bytes
import Mathlib.Logic.Function.Basic

/-!
# File trees

A tree gives every path a file, a directory or nothing. What is done below one directory
leaves everything else as it was, and removing the directory undoes it.
-/

namespace EdgeScope

/-- The components of a path, from the root of the tree. -/
abbrev Path := List Bytes

inductive Node
  | file (contents : Bytes)
  | directory
  deriving DecidableEq

abbrev FileTree := Path → Option Node

namespace FileTree

def empty : FileTree := fun _ => none

/-- Create, overwrite or remove what is at a path. -/
def set (tree : FileTree) (path : Path) (node : Option Node) : FileTree :=
  Function.update tree path node

/-- Remove what is at a path and below it. -/
def removeAll (tree : FileTree) (path : Path) : FileTree :=
  fun p => if path <+: p then none else tree p

@[simp] theorem set_self (tree : FileTree) (path : Path) (node : Option Node) :
    tree.set path node path = node :=
  Function.update_self ..

theorem set_of_ne {path p : Path} (h : p ≠ path) (tree : FileTree) (node : Option Node) :
    tree.set path node p = tree p :=
  Function.update_of_ne h ..

@[simp] theorem set_set (tree : FileTree) (path : Path) (node node' : Option Node) :
    (tree.set path node).set path node' = tree.set path node' :=
  Function.update_idem ..

theorem set_eq_self {tree : FileTree} {path : Path} {node : Option Node} (h : tree path = node) :
    tree.set path node = tree := by
  rw [set, ← h, Function.update_eq_self]

def AgreesOutside (path : Path) (tree tree' : FileTree) : Prop :=
  ∀ p, ¬ path <+: p → tree' p = tree p

namespace AgreesOutside

variable {path : Path} {tree tree' tree'' : FileTree}

theorem refl (path : Path) (tree : FileTree) : AgreesOutside path tree tree := fun _ _ => rfl

theorem trans (h : AgreesOutside path tree tree') (h' : AgreesOutside path tree' tree'') :
    AgreesOutside path tree tree'' :=
  fun p hp => (h' p hp).trans (h p hp)

theorem set {p : Path} (h : path <+: p) (tree : FileTree) (node : Option Node) :
    AgreesOutside path tree (tree.set p node) :=
  fun _ hq => set_of_ne (fun e => hq (by rw [e]; exact h)) tree node

theorem removeAll_eq (h : AgreesOutside path tree tree') (hnone : ∀ p, path <+: p → tree p = none) :
    tree'.removeAll path = tree := by
  funext p
  unfold removeAll
  split
  · rename_i hp
    exact (hnone p hp).symm
  · rename_i hp
    exact h p hp

end AgreesOutside

/-- The removal of a directory does not touch a path that is not below it. -/
theorem removeAll_set {path p : Path} (h : ¬ path <+: p) (tree : FileTree) (node : Option Node) :
    (tree.set p node).removeAll path = (tree.removeAll path).set p node := by
  funext q
  by_cases hq : q = p
  · subst hq
    simp [removeAll, h]
  · rw [set_of_ne hq]
    simp only [removeAll, set_of_ne hq]

end FileTree
end EdgeScope
