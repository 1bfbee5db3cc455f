import EdgeScope.Text.Bytes

/-!
# What the agent sees of its host

Error numbers, floating-point numbers, and files as a stream that was opened at a path shows
them.
-/

namespace EdgeScope

/-- The error numbers the agent tells apart. -/
inductive Errno
  | eacces
  | eperm
  | enoent
  | esrch
  | other
  deriving DecidableEq, Repr

/-- A `double`, as the bits the environment computes. -/
abbrev Double := UInt64

/-- An open `std::ifstream`: the offset of its end, `none` when `tellg` fails, and the bytes
that a read of `n` bytes at a position delivers. -/
structure InputFile where
  size : Option ℕ
  read : ℕ → ℕ → Bytes
  length_read_le : ∀ position n, (read position n).length ≤ n

def InputFile.ofContents (contents : Bytes) : InputFile where
  size := some contents.length
  read position n := (contents.drop position).take n
  length_read_le _ _ := List.length_take_le _ _

abbrev OpenFile := Bytes → Except Errno InputFile

end EdgeScope
