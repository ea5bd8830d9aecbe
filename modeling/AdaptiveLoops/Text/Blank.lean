/-
Blank characters, and texts without the blanks at their two ends.

The blank characters are those with the Unicode property White_Space, in
every plane and not in ASCII alone. `trimmed` drops them from both ends and
keeps those inside.
-/
namespace AdaptiveLoops.Text

/-- The ranges of code points with the property White_Space, ends included. -/
def blankRanges : List (Nat × Nat) :=
  [(0x09, 0x0D), (0x20, 0x20), (0x85, 0x85), (0xA0, 0xA0), (0x1680, 0x1680), (0x2000, 0x200A),
   (0x2028, 0x2029), (0x202F, 0x202F), (0x205F, 0x205F), (0x3000, 0x3000)]

def isBlank (c : Char) : Bool :=
  blankRanges.any fun r => r.1 ≤ c.toNat && c.toNat ≤ r.2

/-- The characters between the first and the last that is not blank. -/
def trimmed (cs : List Char) : List Char :=
  ((cs.dropWhile isBlank).reverse.dropWhile isBlank).reverse

def trim (s : String) : String :=
  String.ofList (trimmed s.toList)

/-- The part before the first `c`, and the part after it if there is a `c`. -/
def splitAtFirst (c : Char) (cs : List Char) : List Char × Option (List Char) :=
  match cs.dropWhile (· != c) with
  | [] => (cs.takeWhile (· != c), none)
  | _ :: rest => (cs.takeWhile (· != c), some rest)

end AdaptiveLoops.Text
