import Norx.Vfs.Types

/-!
# Path Parsing

`parse_path` turns a path into its components. It works on the bytes of the
path alone: empty and `.` components vanish, and `..` drops the component
before it, without ever looking at the tree.

The source fills an array and a count; only the first `count` entries are ever
read, so the model keeps those as a list. Its outer loop runs while bytes
remain and consumes at least one of them each time round, so the length of the
path is fuel enough.

-/

namespace Norx

namespace Vfs

/-- The bytes of a path string. -/
abbrev Path := List UInt8

/-- The byte `/`. -/
def slash : UInt8 := 47

/-- The byte `.`. -/
def dot : UInt8 := 46

/-- The loop of `parse_path`: skip slashes, cut off the next part, and act on
    it. -/
def parseComponents : Nat → List UInt8 → List Name → Except Error (List Name)
  | 0, _, components => .ok components
  | fuel + 1, bytes, components =>
    let start := bytes.dropWhile (· == slash)
    let part := start.takeWhile (· != slash)
    let rest := start.dropWhile (· != slash)
    -- A NUL is an error even in a part that would be dropped.
    if start = [] then .ok components
    else if part.contains 0 then .error .invalidPath
    else if part = [dot] then parseComponents fuel rest components
    else if part = [dot, dot] then parseComponents fuel rest components.dropLast
    else if h : part.length ≤ nameMax then
      if components.length = maxComponents then .error .invalidPath
      else parseComponents fuel rest (components ++ [{ bytes := part, length_le := h }])
    else .error .nameTooLong

/-- The components of an absolute path. -/
def parsePath (path : Path) : Except Error (List Name) :=
  if path.head? ≠ some slash ∨ path.length > maxPath then .error .invalidPath
  else parseComponents path.length path.tail []

end Vfs

end Norx
