/-
Columns of a table: texts filled up with blanks to a width, and numbers
with a fixed count of decimal places. A text that is wider than its column
stands as it is.
-/
namespace AdaptiveLoops.Text.Column

def blanks (n : Nat) : String := String.ofList (List.replicate n ' ')

def left (width : Nat) (s : String) : String :=
  s ++ blanks (width - s.length)

def right (width : Nat) (s : String) : String :=
  blanks (width - s.length) ++ s

/-- The quotient to the nearest whole number, a half to the even one. -/
def nearest (numerator denominator : Nat) : Nat :=
  let q := numerator / denominator
  let twice := 2 * (numerator % denominator)
  if twice < denominator then q
  else if denominator < twice then q + 1
  else q + q % 2

/-- A quotient with `places` digits after the point. -/
def fixed (places numerator denominator : Nat) : String :=
  let scaled := Nat.repr (nearest (numerator * Nat.pow 10 places) denominator)
  let digits := List.replicate (places + 1 - scaled.length) '0' ++ scaled.toList
  String.ofList (digits.take (digits.length - places)) ++ "."
    ++ String.ofList (digits.drop (digits.length - places))

end AdaptiveLoops.Text.Column
