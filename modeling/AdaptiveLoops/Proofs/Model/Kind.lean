/-
The texts that name a kind of model.

`Names` lists them without the reader: the word `mean-time`, each letter
small or capital, and `fixed:` with a numeral behind it. A text is read as
the kind that its part between the blanks names (`parse_eq_ok_iff`), and
every kind is read back from its own text (`parse_text`).
-/
import AdaptiveLoops.Model.Kind
import AdaptiveLoops.Proofs.Text.Blank
import AdaptiveLoops.Proofs.Text.Numeral
import Mathlib

namespace AdaptiveLoops

/-! ## Letters of either case -/

namespace Text

theorem toLower_eq_iff {c d : Char} (h : ¬ d.isUpper) : c.toLower = d ↔ c = d ∨ c = d.toUpper := by
  have hd : d.toLower = d := Char.toLower_eq_of_not_isUpper h
  constructor
  · rintro rfl
    rw [Char.toUpper_toLower_eq_toUpper]
    by_cases hc : c.isUpper
    · exact .inr (Char.toUpper_eq_of_not_isLower (Char.not_isLower_of_isUpper hc)).symm
    · exact .inl (Char.toLower_eq_of_not_isUpper hc).symm
  · rintro (rfl | rfl)
    · exact hd
    · rw [Char.toLower_toUpper_eq_toLower, hd]

/-- `s` is the word, each of its letters small or capital. -/
def Spells (s word : String) : Prop :=
  List.Forall₂ (fun c d => c = d ∨ c = d.toUpper) s.toList word.toList

theorem map_toLower_eq_iff : ∀ {cs ds : List Char}, (∀ d ∈ ds, ¬ d.isUpper) →
    (cs.map Char.toLower = ds ↔ List.Forall₂ (fun c d => c = d ∨ c = d.toUpper) cs ds)
  | [], [], _ => by simp
  | [], d :: ds, _ => by simp
  | c :: cs, [], _ => by simp
  | c :: cs, d :: ds, h => by
    rw [List.forall_mem_cons] at h
    rw [List.map_cons, List.cons.injEq, List.forall₂_cons, toLower_eq_iff h.1, map_toLower_eq_iff h.2]

end Text

namespace ModelKind

open Text (Trims Spells)
open Text.Numeral (Denotes)

/-! ## The grammar -/

/-- The texts of a kind, without blanks around them. -/
inductive Names : (text : String) → ModelKind → Prop where
  | meanTime {text} (h : Spells text "mean-time") : Names text .meanTime
  | fixed {raw n} (h : Denotes raw n) : Names ("fixed:" ++ raw) (.fixed n)

/-! ## Reading -/

theorem map_toLower_eq_meanTime_iff {text : String} :
    text.toList.map Char.toLower = "mean-time".toList ↔ Spells text "mean-time" := by
  have hsmall : "mean-time".toList.any Char.isUpper = false := by decide
  exact Text.map_toLower_eq_iff (List.any_eq_false.1 hsmall)

theorem toList_fixed (raw : String) : ("fixed:" ++ raw).toList = "fixed".toList ++ ':' :: raw.toList := by
  rw [String.toList_append]
  rfl

theorem parseTrimmed_fixed (raw : String) : parseTrimmed ("fixed:" ++ raw).toList =
    match Text.Numeral.parse raw with
    | .ok n => .ok (.fixed n)
    | .error _ => .error (.badIndex raw) := by
  have hnot : ¬ ("fixed".toList ++ ':' :: raw.toList).map Char.toLower = "mean-time".toList := by
    intro h
    have hhead : some 'f' = some 'm' := congrArg List.head? h
    exact absurd hhead (by decide)
  have hcut : Text.splitAtFirst ':' ("fixed".toList ++ ':' :: raw.toList) = ("fixed".toList, some raw.toList) :=
    Text.splitAtFirst_append (by decide)
  rw [toList_fixed, parseTrimmed, if_neg hnot, hcut]
  cases hparse : Text.Numeral.parse raw <;> simp [hparse]

theorem parseTrimmed_of_names {text : String} {k : ModelKind} (h : Names text k) :
    parseTrimmed text.toList = .ok k := by
  cases h with
  | meanTime h => rw [parseTrimmed, if_pos (map_toLower_eq_meanTime_iff.2 h)]
  | fixed h => rw [parseTrimmed_fixed, Text.Numeral.parse_eq_ok_iff.2 h]

theorem names_of_parseTrimmed {text : String} {k : ModelKind} (h : parseTrimmed text.toList = .ok k) :
    Names text k := by
  by_cases hmean : text.toList.map Char.toLower = "mean-time".toList
  · rw [parseTrimmed, if_pos hmean] at h
    cases h
    exact .meanTime (map_toLower_eq_meanTime_iff.1 hmean)
  · rcases Text.splitAtFirst_cases ':' text.toList with hnone | ⟨name, raw, hname, hcut⟩
    · rw [parseTrimmed, if_neg hmean, Text.splitAtFirst_of_not_mem hnone] at h
      cases h
    · by_cases hfixed : name = "fixed".toList
      · have htext : text = "fixed:" ++ String.ofList raw := by
          rw [← String.toList_inj, hcut, hfixed, toList_fixed]
          simp
        rw [htext, parseTrimmed_fixed] at h
        rw [htext]
        cases hparse : Text.Numeral.parse (String.ofList raw) with
        | ok n =>
          rw [hparse] at h
          cases h
          exact .fixed (Text.Numeral.parse_eq_ok_iff.1 hparse)
        | error e =>
          rw [hparse] at h
          cases h
      · rw [parseTrimmed, if_neg hmean, hcut, Text.splitAtFirst_append hname] at h
        simp only [if_neg hfixed] at h
        cases h

theorem parseTrimmed_eq_ok_iff {text : String} {k : ModelKind} : parseTrimmed text.toList = .ok k ↔ Names text k :=
  ⟨names_of_parseTrimmed, parseTrimmed_of_names⟩

/-- **A text is read where its part between the blanks names a kind.** -/
theorem parse_eq_ok_iff {s : String} {k : ModelKind} : parse s = .ok k ↔ ∃ core, Trims s core ∧ Names core k := by
  simp only [Text.trims_iff, ← parseTrimmed_eq_ok_iff, parse]
  constructor
  · intro h
    exact ⟨String.ofList (Text.trimmed s.toList), by simp, by simpa using h⟩
  · rintro ⟨core, hcore, h⟩
    rwa [hcore]

/-! ## Writing -/

theorem trims_text (k : ModelKind) : Trims k.text k.text := by
  have hblank : k.text.toList.any Text.isBlank = false := by
    cases k with
    | meanTime => decide
    | fixed n =>
      have hname : "fixed:".toList.any Text.isBlank = false := by decide
      rw [text, String.toList_append, List.any_append, hname, Bool.false_or, List.any_eq_false]
      intro c hc
      rw [Text.not_isBlank_of_isDigit (Text.Numeral.text_digits hc)]
      decide
  exact ⟨.of_any hblank, [], [], by simp, by simp, by simp⟩

theorem names_text (k : ModelKind) : Names k.text k := by
  cases k with
  | meanTime => exact .meanTime (map_toLower_eq_meanTime_iff.1 (by decide))
  | fixed n => exact .fixed (Text.Numeral.denotes_text n)

theorem parse_text (k : ModelKind) : parse k.text = .ok k :=
  parse_eq_ok_iff.2 ⟨k.text, trims_text k, names_text k⟩

end ModelKind

end AdaptiveLoops
