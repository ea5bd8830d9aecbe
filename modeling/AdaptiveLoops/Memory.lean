/-
The limit of memory. Items that are held side by side take at most 2^63 - 1
bytes, and a request for more is refused before anything is held.
-/
namespace AdaptiveLoops.Memory

/-- The most items of `size` bytes each. -/
def capacity (size : Nat) : Nat := Int64.maxValue.toInt.toNat / size

end AdaptiveLoops.Memory
