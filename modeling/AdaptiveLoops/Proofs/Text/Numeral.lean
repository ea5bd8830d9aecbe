/-
Which texts are numerals, and of which numbers.

`Denotes s n` says it without the reader: `s` is at least one digit, with a
`+` before them or without, and `n` is their value. The reader reads just
these (`parse_eq_ok_iff`), and every digit that it writes is one
(`text_digits`).
-/
import AdaptiveLoops.Text.Numeral

namespace AdaptiveLoops.Text.Numeral

/-- At least one ASCII digit, of value `n` together. -/
structure IsDigits (cs : List Char) (n : Nat) : Prop where
  nonempty : cs ≠ []
  digits : ∀ c ∈ cs, c.isDigit = true
  value : Nat.ofDigitChars 10 cs 0 = n

/-- `s` is a decimal text of `n`. -/
def Denotes (s : String) (n : UInt64) : Prop :=
  IsDigits s.toList n.toNat ∨ ∃ cs, s.toList = '+' :: cs ∧ IsDigits cs n.toNat

/-! ## Reading -/

theorem digit?_eq_some_iff {c : Char} {d : Nat} :
    digit? c = some d ↔ c.isDigit = true ∧ c.toNat - '0'.toNat = d := by
  simp [digit?]

theorem extend_eq_ok_iff {cs : List Char} {v n : Nat} (hv : v < UInt64.size) : extend v cs = .ok n ↔
    (∀ c ∈ cs, c.isDigit = true) ∧ Nat.ofDigitChars 10 cs v = n ∧ n < UInt64.size := by
  induction cs generalizing v with
  | nil =>
    simp only [extend, Except.ok.injEq, List.not_mem_nil, false_imp_iff, implies_true, true_and,
      Nat.ofDigitChars_nil]
    constructor
    · rintro rfl
      exact ⟨rfl, hv⟩
    · exact And.left
  | cons c cs ih =>
    rw [extend, Nat.ofDigitChars_cons, List.forall_mem_cons]
    cases hdigit : digit? c with
    | none =>
      have hnot : c.isDigit ≠ true := fun h => by simp [digit?_of_isDigit h] at hdigit
      simp [hnot]
    | some d =>
      obtain ⟨hc, rfl⟩ := digit?_eq_some_iff.1 hdigit
      simp only [hc, true_and, Nat.mul_comm v 10]
      split
      · next hlt => exact ih hlt
      · next hge =>
        -- The value only grows with more digits.
        have hle := le_ofDigitChars cs (10 * v + (c.toNat - '0'.toNat))
        simp only [reduceCtorEq, false_iff, not_and]
        omega

theorem unsigned_eq_ok_iff {cs : List Char} {n : Nat} :
    unsigned cs = .ok n ↔ IsDigits cs n ∧ n < UInt64.size := by
  cases cs with
  | nil =>
    simp only [unsigned, reduceCtorEq, false_iff, not_and]
    exact fun h => absurd rfl h.nonempty
  | cons c cs =>
    rw [unsigned, extend_eq_ok_iff (by decide)]
    · constructor
      · rintro ⟨hdigits, hvalue, hlt⟩
        exact ⟨⟨List.cons_ne_nil c cs, hdigits, hvalue⟩, hlt⟩
      · rintro ⟨h, hlt⟩
        exact ⟨h.digits, h.value, hlt⟩
    · exact List.cons_ne_nil c cs

theorem not_isDigits_plus {cs : List Char} {n : Nat} : ¬ IsDigits ('+' :: cs) n := by
  intro h
  exact absurd (h.digits '+' List.mem_cons_self) (by decide)

theorem value_eq_ok_iff {cs : List Char} {n : Nat} : value cs = .ok n ↔
    (IsDigits cs n ∨ ∃ ds, cs = '+' :: ds ∧ IsDigits ds n) ∧ n < UInt64.size := by
  unfold value
  split
  · simp only [reduceCtorEq, false_iff, not_and, List.nil_eq, List.cons_ne_nil, false_and, exists_false, or_false]
    exact fun h => absurd rfl h.nonempty
  · next ds =>
    rw [unsigned_eq_ok_iff]
    simp [not_isDigits_plus]
  · next hplus =>
    rw [unsigned_eq_ok_iff]
    have hnone : ¬ ∃ ds, cs = '+' :: ds ∧ IsDigits ds n := by
      rintro ⟨ds, rfl, -⟩
      exact hplus ds rfl
    simp only [hnone, or_false]

/-- **The numerals that are read are the decimal texts** of the number. -/
theorem parse_eq_ok_iff {s : String} {n : UInt64} : parse s = .ok n ↔ Denotes s n := by
  have hlt : n.toNat < UInt64.size := n.toNat_lt
  have hvalue : value s.toList = .ok n.toNat ↔ Denotes s n := by
    rw [value_eq_ok_iff, Denotes, and_iff_left hlt]
  rw [← hvalue, parse]
  cases hs : value s.toList with
  | error e => simp
  | ok m =>
    have hm : m < UInt64.size := (value_eq_ok_iff.1 hs).2
    simp only [dif_pos hm, Except.ok.injEq, ← UInt64.toNat_inj, UInt64.toNat_ofNatLT]

/-! ## Writing -/

theorem denotes_text (n : UInt64) : Denotes (text n) n :=
  parse_eq_ok_iff.1 (parse_text n)

theorem repr_digits {n : Nat} {c : Char} (h : c ∈ (Nat.repr n).toList) : c.isDigit = true := by
  rw [Nat.repr_eq_ofList_toDigits, String.toList_ofList] at h
  exact Nat.isDigit_of_mem_toDigits (by decide) (by decide) h

theorem text_digits {n : UInt64} {c : Char} (h : c ∈ (text n).toList) : c.isDigit = true :=
  repr_digits h

theorem repr_inj {m n : Nat} : Nat.repr m = Nat.repr n ↔ m = n := by
  refine ⟨fun h => ?_, fun h => h ▸ rfl⟩
  rw [Nat.repr_eq_ofList_toDigits, Nat.repr_eq_ofList_toDigits, String.ofList_inj] at h
  calc m
    _ = Nat.ofDigitChars 10 (Nat.toDigits 10 m) 0 := Nat.ofDigitChars_ten_toDigits.symm
    _ = n := by rw [h, Nat.ofDigitChars_ten_toDigits]

theorem text_inj {m n : UInt64} : text m = text n ↔ m = n := by
  rw [text, text, repr_inj, UInt64.toNat_inj]

end AdaptiveLoops.Text.Numeral
