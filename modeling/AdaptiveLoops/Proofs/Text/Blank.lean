/-
Texts without the blanks around them, and texts cut at a character.

`Trims s core` says that `core` stands in `s` with nothing but blanks around
it, and begins and ends with none. Every text has one such part, the one
that `trimmed` leaves (`trims_iff`). A text is cut at a character where
nothing before the cut is that character (`splitAtFirst_append`).
-/
import AdaptiveLoops.Text.Blank
import Mathlib.Data.List.TakeWhile

namespace AdaptiveLoops.Text

/-! ## Blanks around a text -/

/-- No blank at either end. -/
structure Bare (cs : List Char) : Prop where
  head : ∀ c ∈ cs.head?, isBlank c = false
  last : ∀ c ∈ cs.getLast?, isBlank c = false

theorem Bare.of_any {cs : List Char} (h : cs.any isBlank = false) : Bare cs := by
  have hnone : ∀ c ∈ cs, isBlank c = false := by simpa using h
  exact ⟨fun c hc => hnone c (List.mem_of_head? hc), fun c hc => hnone c (List.mem_of_getLast? hc)⟩

theorem not_isBlank_of_isDigit {c : Char} (h : c.isDigit = true) : isBlank c = false := by
  simp only [Char.isDigit, Bool.and_eq_true, decide_eq_true_eq, ge_iff_le, UInt32.le_iff_toNat_le] at h
  have hlo : 48 ≤ c.toNat := h.1
  have hhi : c.toNat ≤ 57 := h.2
  simp [isBlank, blankRanges]
  omega

theorem dropWhile_blanks_append {before cs : List Char} (hbefore : ∀ c ∈ before, isBlank c = true)
    (hhead : ∀ c ∈ cs.head?, isBlank c = false) : (before ++ cs).dropWhile isBlank = cs := by
  rw [List.dropWhile_append_of_pos hbefore]
  cases cs with
  | nil => rfl
  | cons c cs => exact List.dropWhile_cons_of_neg (by simp [hhead c rfl])

theorem trimmed_append {before core after : List Char} (hbefore : ∀ c ∈ before, isBlank c = true)
    (hafter : ∀ c ∈ after, isBlank c = true) (hcore : Bare core) : trimmed (before ++ core ++ after) = core := by
  have hback : ∀ c ∈ after.reverse, isBlank c = true := by simpa using hafter
  unfold trimmed
  cases core with
  | nil =>
    have hall : ∀ c ∈ before ++ [] ++ after, isBlank c = true := by simpa [or_imp, forall_and] using ⟨hbefore, hafter⟩
    rw [List.dropWhile_eq_nil_iff.2 hall]
    rfl
  | cons c core =>
    have hfront : (before ++ (c :: core) ++ after).dropWhile isBlank = (c :: core) ++ after := by
      rw [List.append_assoc]
      exact dropWhile_blanks_append hbefore hcore.head
    rw [hfront, List.reverse_append, dropWhile_blanks_append hback, List.reverse_reverse]
    rw [List.head?_reverse]
    exact hcore.last

theorem exists_blanks_append (cs : List Char) : ∃ before, cs = before ++ cs.dropWhile isBlank ∧
    (∀ c ∈ before, isBlank c = true) ∧ ∀ c ∈ (cs.dropWhile isBlank).head?, isBlank c = false := by
  refine ⟨cs.takeWhile isBlank, List.takeWhile_append_dropWhile.symm, fun c hc => ?_, fun c hc => ?_⟩
  · exact List.mem_takeWhile_imp hc
  · have := List.head?_dropWhile_not isBlank cs
    rw [hc] at this
    simpa using this

theorem exists_trimmed (cs : List Char) : Bare (trimmed cs) ∧ ∃ before after,
    cs = before ++ trimmed cs ++ after ∧ (∀ c ∈ before, isBlank c = true) ∧ ∀ c ∈ after, isBlank c = true := by
  obtain ⟨before, hcs, hbefore, hhead⟩ := exists_blanks_append cs
  obtain ⟨after, hrest, hafter, hlast⟩ := exists_blanks_append (cs.dropWhile isBlank).reverse
  have hcut : cs.dropWhile isBlank = trimmed cs ++ after.reverse := by
    rw [trimmed, ← List.reverse_append, ← hrest, List.reverse_reverse]
  refine ⟨⟨fun c hc => ?_, fun c hc => ?_⟩, before, after.reverse, ?_, hbefore, by simpa using hafter⟩
  · refine hhead c ?_
    rw [hcut]
    cases htrimmed : trimmed cs with
    | nil => rw [htrimmed] at hc; cases hc
    | cons d core => rwa [htrimmed] at hc
  · refine hlast c ?_
    rwa [trimmed, List.getLast?_reverse] at hc
  · rw [List.append_assoc, ← hcut]
    exact hcs

/-- `core` stands in `s` between blanks, and has none at its ends. -/
def Trims (s core : String) : Prop :=
  Bare core.toList ∧ ∃ before after, s.toList = before ++ core.toList ++ after ∧
    (∀ c ∈ before, isBlank c = true) ∧ ∀ c ∈ after, isBlank c = true

/-- **Every text has one part between its blanks.** -/
theorem trims_iff {s core : String} : Trims s core ↔ trimmed s.toList = core.toList := by
  constructor
  · rintro ⟨hcore, before, after, hs, hbefore, hafter⟩
    rw [hs, trimmed_append hbefore hafter hcore]
  · intro h
    rw [Trims, ← h]
    exact exists_trimmed s.toList

/-! ## Texts cut at a character -/

variable {c : Char} {cs name rest : List Char}

theorem splitAtFirst_of_not_mem (h : c ∉ cs) : splitAtFirst c cs = (cs, none) := by
  have hne : ∀ d ∈ cs, (d != c) = true := fun d hd => by
    simpa using fun heq : d = c => h (heq ▸ hd)
  rw [splitAtFirst, List.dropWhile_eq_nil_iff.2 hne, List.takeWhile_eq_self_iff.2 hne]

theorem splitAtFirst_append (h : c ∉ name) : splitAtFirst c (name ++ c :: rest) = (name, some rest) := by
  have hne : ∀ d ∈ name, (d != c) = true := fun d hd => by
    simpa using fun heq : d = c => h (heq ▸ hd)
  have hdrop : (name ++ c :: rest).dropWhile (· != c) = c :: rest := by
    rw [List.dropWhile_append_of_pos hne, List.dropWhile_cons_of_neg (by simp)]
  have htake : (name ++ c :: rest).takeWhile (· != c) = name := by
    rw [List.takeWhile_append_of_pos hne, List.takeWhile_cons_of_neg (by simp), List.append_nil]
  rw [splitAtFirst, hdrop, htake]

theorem splitAtFirst_cases (c : Char) (cs : List Char) :
    c ∉ cs ∨ ∃ name rest, c ∉ name ∧ cs = name ++ c :: rest := by
  by_cases h : c ∈ cs
  · obtain ⟨name, rest, hcs, hname⟩ := List.eq_append_cons_of_mem h
    exact .inr ⟨name, rest, hname, hcs⟩
  · exact .inl h

end AdaptiveLoops.Text
