/-
The shortest decimal text of a binary64 number: among the decimals that
round to it, one of fewest digits, and of those the nearest.

A finite number is `significand * 2^exponent`, and the reals that round to
it reach half a unit to either side (a quarter below a power of two), ends
included when the significand is even. For 1, 2, … 17 digits the two
neighbours of the number on that decimal grid are tried, in natural numbers
throughout.

The text is positional from `10^-5` up to below `10^16` and then keeps a
point, as in `12.0`; outside it has an exponent, as in `1.5e-7`.
-/
namespace AdaptiveLoops.Text.Shortest

/-- The size of a finite number, as `significand * 2^exponent`. -/
structure Binary where
  significand : Nat
  exponent : Int
  /-- Whether the next smaller number is only half as far as the next larger one. -/
  atPower : Bool

def fraction (bits : UInt64) : Nat := bits.toNat % 0x10000000000000

def biased (bits : UInt64) : Nat := bits.toNat / 0x10000000000000 % 0x800

def isNegative (bits : UInt64) : Bool := 0x8000000000000000 ≤ bits.toNat

def binary (bits : UInt64) : Binary :=
  if biased bits = 0 then ⟨fraction bits, -1074, false⟩
  else ⟨fraction bits + 0x10000000000000, (biased bits : Int) - 1075, fraction bits = 0 && biased bits > 1⟩

/-- The interval that rounds to a number, and the number, all over one denominator. -/
structure Interval where
  low : Nat
  value : Nat
  high : Nat
  denominator : Nat
  closed : Bool

def interval (b : Binary) : Interval :=
  let up := Nat.pow 2 b.exponent.toNat
  let below := if b.atPower then 1 else 2
  { low := (4 * b.significand - below) * up
    value := 4 * b.significand * up
    high := (4 * b.significand + 2) * up
    denominator := 4 * Nat.pow 2 (-b.exponent).toNat
    closed := b.significand % 2 = 0 }

/-- Whether the decimal `c * 10^k` rounds to the number. -/
def Interval.contains (i : Interval) (c : Nat) (k : Int) : Bool :=
  let point := c * Nat.pow 10 k.toNat * i.denominator
  let scale := Nat.pow 10 (-k).toNat
  if i.closed then i.low * scale ≤ point && point ≤ i.high * scale
  else i.low * scale < point && point < i.high * scale

/-- The exponent of the first decimal digit, for a number that is not zero. -/
def Interval.magnitude (i : Interval) : Int :=
  if i.denominator ≤ i.value then (Nat.repr (i.value / i.denominator)).length - 1
  else -(((List.range 400).find? fun j => i.denominator ≤ i.value * Nat.pow 10 j).getD 400 : Nat)

/-- The neighbours of the number on the grid of `digits` digits that round to it, nearest first. -/
def Interval.onGrid? (i : Interval) (digits : Nat) : Option (Nat × Int) :=
  let k : Int := i.magnitude - digits + 1
  let unit := Nat.pow 10 k.toNat * i.denominator
  let scaled := i.value * Nat.pow 10 (-k).toNat
  let below := scaled / unit
  let rest := scaled % unit
  let near := if 2 * rest ≤ unit then [below, below + 1] else [below + 1, below]
  (near.find? (i.contains · k)).map (·, k)

/-- Drops the zeros at the end of a decimal of at most `fuel` digits. -/
def withoutZeros : (fuel : Nat) → Nat × Int → Nat × Int
  | 0, d => d
  | fuel + 1, (c, k) => if c % 10 = 0 ∧ c ≠ 0 then withoutZeros fuel (c / 10, k + 1) else (c, k)

/-- Digits and exponent of the shortest decimal of a finite number. -/
def decimal (bits : UInt64) : Nat × Int :=
  let b := binary bits
  if b.significand = 0 then (0, 0)
  else
    let i := interval b
    withoutZeros 20 (((List.range 17).findSome? fun n => i.onGrid? (n + 1)).getD (0, 0))

def zeros (n : Nat) : String := String.ofList (List.replicate n '0')

/-- The text of `digits * 10^exponent`, with `digits` not zero. -/
def positional (digits : Nat) (exponent : Int) : String :=
  let ds := Nat.toDigits 10 digits
  let point := exponent + ds.length
  if 0 ≤ exponent ∧ point ≤ 16 then String.ofList ds ++ zeros exponent.toNat ++ ".0"
  else if 0 < point ∧ point ≤ 16 then
    String.ofList (ds.take point.toNat) ++ "." ++ String.ofList (ds.drop point.toNat)
  else if -5 < point ∧ point ≤ 0 then "0." ++ zeros (-point).toNat ++ String.ofList ds
  else
    let mantissa := match ds with
      | [d] => String.ofList [d]
      | d :: rest => String.ofList (d :: '.' :: rest)
      | [] => ""
    mantissa ++ "e" ++ toString (point - 1)

/-- The text of a number, or none where it is infinite or not a number. -/
def text? (bits : UInt64) : Option String :=
  if biased bits = 2047 then none
  else
    let sign := if isNegative bits then "-" else ""
    let (digits, exponent) := decimal bits
    some (sign ++ if digits = 0 then "0.0" else positional digits exponent)

end AdaptiveLoops.Text.Shortest
