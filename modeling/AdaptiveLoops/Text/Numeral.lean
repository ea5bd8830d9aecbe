/-
Decimal numerals of unsigned 64-bit numbers: an optional `+`, then at least
one ASCII digit, leading zeros allowed. `parse` reads one and `text` writes
the shortest; `parse_text` is the round trip.

A refused text names its first fault from the left. At one character a
character that is no digit comes before a value that has grown too large.
-/
namespace AdaptiveLoops.Text

/-- Why a text is no numeral. -/
inductive NumeralError where
  | empty
  | invalidDigit
  | tooLarge
  deriving DecidableEq, Repr

def NumeralError.message : NumeralError → String
  | .empty => "cannot parse integer from empty string"
  | .invalidDigit => "invalid digit found in string"
  | .tooLarge => "number too large to fit in target type"

namespace Numeral

def digit? (c : Char) : Option Nat :=
  if c.isDigit then some (c.toNat - '0'.toNat) else none

/-- The value of the digits `cs` written after a numeral of value `value`. -/
def extend (value : Nat) : List Char → Except NumeralError Nat
  | [] => .ok value
  | c :: cs =>
    match digit? c with
    | none => .error .invalidDigit
    | some d =>
      if value * 10 + d < UInt64.size then extend (value * 10 + d) cs else .error .tooLarge

/-- Digits without a sign: at least one. -/
def unsigned : List Char → Except NumeralError Nat
  | [] => .error .invalidDigit
  | cs => extend 0 cs

def value : List Char → Except NumeralError Nat
  | [] => .error .empty
  | '+' :: cs => unsigned cs
  | cs => unsigned cs

def parse (s : String) : Except NumeralError UInt64 :=
  match value s.toList with
  | .error e => .error e
  | .ok n => if h : n < UInt64.size then .ok (UInt64.ofNatLT n h) else .error .tooLarge

def text (n : UInt64) : String :=
  Nat.repr n.toNat

theorem digit?_of_isDigit {c : Char} (h : c.isDigit = true) :
    digit? c = some (c.toNat - '0'.toNat) := by
  simp [digit?, h]

theorem le_ofDigitChars (cs : List Char) (v : Nat) : v ≤ Nat.ofDigitChars 10 cs v := by
  induction cs generalizing v with
  | nil => simp
  | cons c cs ih =>
    rw [Nat.ofDigitChars_cons]
    have := ih (10 * v + (c.toNat - '0'.toNat))
    omega

/-- Digits are read at their decimal value, as long as it fits. -/
theorem extend_of_digits {cs : List Char} {v : Nat} (hd : ∀ c ∈ cs, c.isDigit = true)
    (hv : Nat.ofDigitChars 10 cs v < UInt64.size) :
    extend v cs = .ok (Nat.ofDigitChars 10 cs v) := by
  induction cs generalizing v with
  | nil => simp [extend]
  | cons c cs ih =>
    rw [Nat.ofDigitChars_cons] at hv ⊢
    have hle := le_ofDigitChars cs (10 * v + (c.toNat - '0'.toNat))
    rw [extend, digit?_of_isDigit (hd c (by simp))]
    simp only [Nat.mul_comm v 10]
    rw [if_pos (by omega), ih (fun d m => hd d (by simp [m])) hv]

theorem value_toDigits {n : Nat} (hn : n < UInt64.size) : value (Nat.toDigits 10 n) = .ok n := by
  have hd : ∀ c ∈ Nat.toDigits 10 n, c.isDigit = true := fun c m =>
    Nat.isDigit_of_mem_toDigits (by decide) (by decide) m
  have he : extend 0 (Nat.toDigits 10 n) = .ok n := by
    rw [extend_of_digits hd (by rw [Nat.ofDigitChars_ten_toDigits]; exact hn),
      Nat.ofDigitChars_ten_toDigits]
  cases h : Nat.toDigits 10 n with
  | nil => exact absurd h Nat.toDigits_ne_nil
  | cons c cs =>
    rw [h] at hd he
    have hc : c ≠ '+' := by
      rintro rfl
      exact absurd (hd '+' (by simp)) (by decide)
    unfold value
    split
    · simp_all
    · simp_all
    · exact he

theorem parse_text (n : UInt64) : parse (text n) = .ok n := by
  have h : n.toNat < UInt64.size := n.toNat_lt
  rw [parse, text, Nat.repr_eq_ofList_toDigits, String.toList_ofList, value_toDigits h]
  simp only [dif_pos h, UInt64.ofNatLT_toNat]

end Numeral

end AdaptiveLoops.Text
