import Mathlib

/-!
# The Two Targets

The kernel is built for one of two processors. What the source selects at
compile time is a function of the target here, so that a result about the
common code is one about both builds.

## Main definitions

* `pageSize`, `userLimit`: The page size, and the end of the user half.
-/

namespace Norx

/-- The processors the kernel is built for. -/
inductive Machine where
  | x86_64
  | aarch64
  deriving DecidableEq, Repr

namespace Machine

/-- The number of the machine in an ELF header. -/
def id : Machine → Nat
  | x86_64 => 62
  | aarch64 => 183

end Machine

def pageSize : Nat := 4096

/-- The first address above those of user pages. -/
def userLimit : Machine → Nat
  | .x86_64 => 0x0000800000000000
  | .aarch64 => 0x0000100000000000

end Norx
