/-
The tokens of a JSON text: brackets, commas, colons, texts, and bare words,
which are numbers and the three constants.

A text is read character by character in one of three modes: between
tokens, inside a bare word, or inside a quoted text. A bare word goes on to
the next blank, bracket, comma, colon or quote. An escape of the form
`\uXXXX` gives a unit of UTF-16; two halves of a pair have to stand next to
each other.

A number with a fraction or an exponent is read as a real one, and so are
`-0`, the sign of which would be lost otherwise, and whole numbers outside
64 bits. One whose magnitude is too large for a real number is refused. A
real number is worked out from the leading digits that make a number of 64
bits, times a power of ten; it can miss the nearest one by its last place.
-/
import AdaptiveLoops.Document

namespace AdaptiveLoops.Document.Json

inductive Token where
  | openList
  | closeList
  | openRecord
  | closeRecord
  | comma
  | colon
  | text (s : String)
  /-- A number or a constant. -/
  | bare (d : Document)

/-! ## Numbers -/

/-- The parts of a number as it is written. -/
structure NumberText where
  negative : Bool
  whole : List Char
  /-- The digits after the point, if there is a point. -/
  places : Option (List Char)
  /-- The exponent, if there is one. -/
  exponent : Option Int

def digitsValue (cs : List Char) : Nat :=
  Nat.ofDigitChars 10 cs 0

/--
The word that `word` and digits after it make, up to the first digit it has
no room for, and how many digits are left from there on.
-/
def leadingWord (word : Nat) : List Char → Nat × Nat
  | [] => (word, 0)
  | c :: cs =>
    let longer := word * 10 + (c.toNat - '0'.toNat)
    if longer < UInt64.size then leadingWord longer cs else (word, cs.length + 1)

/-- The nearest real number to `10 ^ n`. -/
def powerOfTen (n : Nat) : Float := .ofScientific 1 false n

/--
A word times a power of ten: one rounding for the word, and one for the
multiplication or for each of the divisions, by at most `10 ^ 308` at a time.
-/
def scaled? (word : Nat) (exponent : Int) : Option Float :=
  let x := Float.ofNat word
  let most := powerOfTen 308
  if word = 0 ∨ exponent < -616 then some 0
  else if exponent < -308 then some (x / most / powerOfTen (-308 - exponent).toNat)
  else if exponent < 0 then some (x / powerOfTen (-exponent).toNat)
  else if 308 < exponent then none
  else if (x * powerOfTen exponent.toNat).isInf then none
  else some (x * powerOfTen exponent.toNat)

/-- At least one digit, and what follows the digits. -/
def takeDigits? (cs : List Char) : Option (List Char × List Char) :=
  let digits := cs.takeWhile (·.isDigit)
  if digits.isEmpty then none else some (digits, cs.dropWhile (·.isDigit))

/-- Digits of which the first is not zero, unless it is the only one. -/
def takeWhole? (cs : List Char) : Option (List Char × List Char) :=
  match takeDigits? cs with
  | some ('0' :: _ :: _, _) => none
  | part => part

def takePlaces? : List Char → Option (Option (List Char) × List Char)
  | '.' :: cs => (takeDigits? cs).map fun part => (some part.1, part.2)
  | cs => some (none, cs)

/-- The value of an exponent that ends the word. -/
def exponentValue? (sign : Int) (cs : List Char) : Option Int :=
  match takeDigits? cs with
  | some (digits, []) => some (sign * digitsValue digits)
  | _ => none

/-- What follows the digits: nothing, or an exponent. -/
def exponent? : List Char → Option (Option Int)
  | [] => some none
  | e :: cs =>
    if e = 'e' ∨ e = 'E' then
      match cs with
      | '+' :: cs => (exponentValue? 1 cs).map some
      | '-' :: cs => (exponentValue? (-1) cs).map some
      | cs => (exponentValue? 1 cs).map some
    else none

def unsignedNumber? (negative : Bool) (cs : List Char) : Option NumberText := do
  let (whole, rest) ← takeWhole? cs
  let (places, rest) ← takePlaces? rest
  let exponent ← exponent? rest
  pure ⟨negative, whole, places, exponent⟩

def number? : List Char → Option NumberText
  | '-' :: cs => unsignedNumber? true cs
  | cs => unsignedNumber? false cs

namespace NumberText

/-- The whole number that is written, if it is one of 64 bits that keeps its sign. -/
def int? (n : NumberText) : Option Int :=
  let magnitude := digitsValue n.whole
  if n.places.isSome || n.exponent.isSome then none
  else if n.negative then
    if magnitude = 0 ∨ (-magnitude : Int) < Int64.minValue.toInt then none
    else some (-magnitude)
  else if magnitude < UInt64.size then some magnitude
  else none

/-- The digits that count, as a word, and the power of ten it is multiplied by. -/
def significand (n : NumberText) : Nat × Int :=
  let places := n.places.getD []
  let (word, wholeLeft) := leadingWord 0 n.whole
  let (word, placesLeft) := leadingWord word places
  (word, n.exponent.getD 0 + wholeLeft - (places.length - placesLeft : Nat))

def real? (n : NumberText) : Option Float :=
  (scaled? n.significand.1 n.significand.2).map fun x => if n.negative then -x else x

def document? (n : NumberText) : Option Document :=
  match n.int? with
  | some i => some (.int i)
  | none => n.real?.map .real

end NumberText

/-- The token of a bare word. -/
def bare? (cs : List Char) : Option Token :=
  if cs = "null".toList then some (.bare .null)
  else if cs = "true".toList then some (.bare (.bool true))
  else if cs = "false".toList then some (.bare (.bool false))
  else (number? cs).bind fun n => n.document?.map .bare

/-! ## Characters -/

def hexValue? (c : Char) : Option Nat :=
  if c.isDigit then some (c.toNat - '0'.toNat)
  else if 'a' ≤ c ∧ c ≤ 'f' then some (c.toNat - 'a'.toNat + 10)
  else if 'A' ≤ c ∧ c ≤ 'F' then some (c.toNat - 'A'.toNat + 10)
  else none

/-- The value of hexadecimal digits, all of which have to be digits. -/
def hex? (cs : List Char) : Option Nat :=
  (cs.mapM hexValue?).map (·.foldl (fun n d => n * 16 + d) 0)

/-- The character of a one-letter escape. -/
def escaped? : Char → Option Char
  | '"' => some '"'
  | '\\' => some '\\'
  | '/' => some '/'
  | 'b' => some '\x08'
  | 'f' => some '\x0c'
  | 'n' => some '\n'
  | 'r' => some '\r'
  | 't' => some '\t'
  | _ => none

def isHighHalf (unit : Nat) : Bool := 0xD800 ≤ unit && unit < 0xDC00

def isLowHalf (unit : Nat) : Bool := 0xDC00 ≤ unit && unit < 0xE000

/-- The character of two halves of a pair. -/
def paired (high low : Nat) : Char :=
  .ofNat (0x10000 + (high - 0xD800) * 0x400 + (low - 0xDC00))

def isBlank (c : Char) : Bool :=
  c == ' ' || c == '\n' || c == '\r' || c == '\t'

def punctuation? : Char → Option Token
  | '[' => some .openList
  | ']' => some .closeList
  | '\x7b' => some .openRecord
  | '\x7d' => some .closeRecord
  | ',' => some .comma
  | ':' => some .colon
  | _ => none

/-! ## Tokens -/

/-- Where in the text the next character stands; what was read of a token is kept backwards. -/
inductive Mode where
  | between
  | word (read : List Char)
  /-- Inside a quoted text, right after the first half of a pair if there is a `high`. -/
  | quoted (read : List Char) (high : Option Nat)

/-- The tokens of a text, given the mode its first character is read in. -/
def tokens? : Mode → List Char → Option (List Token)
  | .between, [] => some []
  | .word read, [] => (bare? read.reverse).map ([·])
  | .quoted _ _, [] => none
  | .between, c :: cs =>
    if isBlank c then tokens? .between cs
    else if c = '"' then tokens? (.quoted [] none) cs
    else
      match punctuation? c with
      | some t => (tokens? .between cs).map (t :: ·)
      | none => tokens? (.word [c]) cs
  | .word read, c :: cs => do
    if isBlank c then
      let t ← bare? read.reverse
      (tokens? .between cs).map (t :: ·)
    else if c = '"' then none
    else
      match punctuation? c with
      | some p =>
        let t ← bare? read.reverse
        (tokens? .between cs).map (t :: p :: ·)
      | none => tokens? (.word (c :: read)) cs
  | .quoted read high, '\\' :: 'u' :: a :: b :: c :: d :: cs => do
    let unit ← hex? [a, b, c, d]
    match high with
    | some h => if isLowHalf unit then tokens? (.quoted (paired h unit :: read) none) cs else none
    | none =>
      if isHighHalf unit then tokens? (.quoted read (some unit)) cs
      else if isLowHalf unit then none
      else tokens? (.quoted (.ofNat unit :: read) none) cs
  | .quoted _ (some _), _ => none
  | .quoted read none, '\\' :: e :: cs => do
    let c ← escaped? e
    tokens? (.quoted (c :: read) none) cs
  | .quoted read none, c :: cs =>
    if c = '"' then (tokens? .between cs).map (.text (String.ofList read.reverse) :: ·)
    else if c.toNat < 0x20 ∨ c = '\\' then none
    else tokens? (.quoted (c :: read) none) cs

end AdaptiveLoops.Document.Json
