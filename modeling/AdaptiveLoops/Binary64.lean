/-
Binary64 numbers, kept as their bits.

`Float` tells no NaN from another. Here every pattern of 64 bits is a number
of its own: arithmetic passes on the sign and the payload of a NaN that it
is given, and `order` puts all numbers in one line, the NaNs outside the
infinities.
-/
namespace AdaptiveLoops

structure Binary64 where
  bits : UInt64
  deriving DecidableEq, Repr

namespace Binary64

def zero : Binary64 := ⟨0⟩

instance : Inhabited Binary64 := ⟨zero⟩

def toFloat (x : Binary64) : Float := .ofBits x.bits

def isNaN (x : Binary64) : Bool := x.toFloat.isNaN

/-- The NaN that an operation on other numbers ends in: negative, with no payload. -/
def invalid : Binary64 := ⟨0xFFF8000000000000⟩

/-- What an operation on other numbers than NaNs gives. -/
def ofFloat (x : Float) : Binary64 := if x.isNaN then invalid else ⟨x.toBits⟩

/-- The nearest number to `n`. -/
def ofNat (n : Nat) : Binary64 := ofFloat (Float.ofNat n)

/-- A NaN as operations pass it on, with the first bit of its payload set. -/
def quiet (x : Binary64) : Binary64 := ⟨x.bits ||| 0x0008000000000000⟩

/-- The first operand that is a NaN, or else what the operation gives. -/
def lift (op : Float → Float → Float) (x y : Binary64) : Binary64 :=
  if x.isNaN then x.quiet
  else if y.isNaN then y.quiet
  else ofFloat (op x.toFloat y.toFloat)

instance : Add Binary64 := ⟨lift (· + ·)⟩

instance : Sub Binary64 := ⟨lift (· - ·)⟩

instance : Div Binary64 := ⟨lift (· / ·)⟩

/--
The place of a number in the order of its bits, negative numbers first. On
numbers that are neither negative nor NaN it is their order as numbers.
-/
def order (x : Binary64) : Int :=
  let bits := x.bits.toInt64.toInt
  if 0 ≤ bits then bits else Int64.minValue.toInt - 1 - bits

end Binary64

end AdaptiveLoops
