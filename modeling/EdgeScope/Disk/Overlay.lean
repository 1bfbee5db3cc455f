import EdgeScope.Disk.FileTree

/-!
# One tree over another

What is done to a tree goes the same way on a larger one, as long as the rest has nothing where it
is done. The rest stays as it is.
-/

namespace EdgeScope.FileTree

/-- The base shows where the tree has nothing. -/
def atop (tree base : FileTree) : FileTree := fun p => (tree p).or (base p)

variable {tree base : FileTree} {path : Path}

@[simp] theorem empty_atop (base : FileTree) : empty.atop base = base := rfl

theorem atop_apply (h : base path = none) : tree.atop base path = tree path := by
  rw [atop, h, Option.or_none]

theorem atop_eq_some_iff {p : Path} {node : Node} (h : tree p = none ∨ base p = none) :
    tree.atop base p = some node ↔ base p = some node ∨ tree p = some node := by
  obtain h | h := h
  · simp [atop, h]
  · simp [atop, h]

theorem atop_set (h : base path = none) (tree : FileTree) (node : Option Node) :
    (tree.set path node).atop base = (tree.atop base).set path node := by
  funext p
  by_cases hp : p = path
  · rw [hp, atop_apply h, set_self, set_self]
  · rw [set_of_ne hp, atop, atop, set_of_ne hp]

theorem atop_removeAll (h : ∀ p, path <+: p → base p = none) (tree : FileTree) :
    (tree.removeAll path).atop base = (tree.atop base).removeAll path := by
  funext p
  by_cases hp : path <+: p
  · simp [removeAll, atop, hp, h p hp]
  · simp [removeAll, atop, hp]

end EdgeScope.FileTree
