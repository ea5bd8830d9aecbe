/-
The texts that name a policy.

`Names` lists them without the reader: three words for the sequential policy,
and four names that stand alone or with a number after a colon. A name with
something else after its colon is `Misnumbered`. Reading a text comes to one
of three ends (`Reads`), and each of them is reached by its own texts alone
(`parse_reads`).
-/
import AdaptiveLoops.Policy.Text
import AdaptiveLoops.Proofs.Text.Blank
import AdaptiveLoops.Proofs.Text.Numeral

namespace AdaptiveLoops.Policy

open Text (Trims)
open Text.Numeral (Denotes)

/-! ## The grammar -/

/-- A name that takes a number: the one it stands for alone, and the policy of any. -/
inductive Parameterised : (name : String) → (default : UInt64) → (make : UInt64 → Policy) → Prop where
  | threaded : Parameterised "threaded" 1 .threaded
  | omp : Parameterised "omp" 1 .threaded
  | device : Parameterised "device" 256 (.device · .sync)
  | deviceAsync : Parameterised "device-async" 256 (.device · .async)

/-- The texts of a policy, without blanks around them. -/
inductive Names : (text : String) → Policy → Prop where
  | seq : Names "seq" .sequential
  | sequential : Names "sequential" .sequential
  | loop : Names "loop" .sequential
  | alone {name default make} (h : Parameterised name default make) : Names name (make default)
  | numbered {name default make raw n} (h : Parameterised name default make) (hraw : Denotes raw n)
      (hn : n ≠ 0) : Names (name ++ ":" ++ raw) (make n)

/-- A name that takes a number, and behind its colon no number or zero. -/
def Misnumbered (name raw : String) : Prop :=
  (∃ default make, Parameterised name default make) ∧ ¬ ∃ n, n ≠ 0 ∧ Denotes raw n

/-- Neither its grain nor its block is zero. -/
def Positive : Policy → Prop
  | .sequential => True
  | .threaded minChunk => minChunk ≠ 0
  | .device block _ => block ≠ 0

theorem Parameterised.positive {name : String} {default : UInt64} {make : UInt64 → Policy}
    (h : Parameterised name default make) : (make default).Positive ∧ ∀ n, (make n).Positive ↔ n ≠ 0 := by
  cases h <;> exact ⟨by unfold Positive; decide, fun n => Iff.rfl⟩

theorem Names.positive {text : String} {p : Policy} (h : Names text p) : p.Positive := by
  cases h with
  | seq | sequential | loop => trivial
  | alone h => exact h.positive.1
  | numbered h _ hn => exact (h.positive.2 _).2 hn

/-! ## Reading a text without blanks around it -/

theorem parameter_of_denotes {name raw : String} {default n : UInt64} (hraw : Denotes raw n) (hn : n ≠ 0) :
    parameter name default (some raw.toList) = .ok n := by
  simp only [parameter, String.ofList_toList, Text.Numeral.parse_eq_ok_iff.2 hraw, if_neg hn]

theorem parameter_of_not_denotes {name raw : String} {default : UInt64}
    (hraw : ¬ ∃ n, n ≠ 0 ∧ Denotes raw n) :
    parameter name default (some raw.toList) = .error (.invalidParameter name raw) := by
  simp only [parameter, String.ofList_toList]
  cases hparse : Text.Numeral.parse raw with
  | error e => rfl
  | ok n =>
    have hzero : n = 0 := by
      by_contra hn
      exact hraw ⟨n, hn, Text.Numeral.parse_eq_ok_iff.1 hparse⟩
    simp only [if_pos hzero]

theorem parseTrimmed_alone {name : String} {default : UInt64} {make : UInt64 → Policy}
    (h : Parameterised name default make) : parseTrimmed name.toList = .ok (make default) := by
  cases h <;> rfl

theorem parseTrimmed_parameter {name : String} {default : UInt64} {make : UInt64 → Policy}
    (h : Parameterised name default make) (raw : String) :
    parseTrimmed (name ++ ":" ++ raw).toList = (parameter name default (some raw.toList)).map make := by
  have hcut : Text.splitAtFirst ':' (name ++ ":" ++ raw).toList = (name.toList, some raw.toList) := by
    have hcolon : ':' ∉ name.toList := by cases h <;> decide
    rw [String.toList_append, String.toList_append, List.append_assoc]
    exact Text.splitAtFirst_append hcolon
  simp only [parseTrimmed, hcut, String.ofList_toList]
  cases h <;> rfl

theorem parseTrimmed_of_names {text : String} {p : Policy} (h : Names text p) :
    parseTrimmed text.toList = .ok p := by
  cases h with
  | seq | sequential | loop => rfl
  | alone h => exact parseTrimmed_alone h
  | numbered h hraw hn =>
    rw [parseTrimmed_parameter h, parameter_of_denotes hraw hn]
    rfl

theorem parseTrimmed_of_misnumbered {name raw : String} (h : Misnumbered name raw) :
    parseTrimmed (name ++ ":" ++ raw).toList = .error (.invalidParameter name raw) := by
  obtain ⟨⟨default, make, h⟩, hraw⟩ := h
  rw [parseTrimmed_parameter h, parameter_of_not_denotes hraw]
  rfl

/-- What reading a text without blanks around it comes to. -/
inductive Reads (text : String) : Except PolicyTextError Policy → Prop where
  | named {p} (h : Names text p) : Reads text (.ok p)
  | misnumbered {name raw} (htext : text = name ++ ":" ++ raw) (h : Misnumbered name raw) :
      Reads text (.error (.invalidParameter name raw))
  | unknown : Reads text (.error (.unknown text))

/-- A name as it stands with what is behind its colon, if it has one. -/
def spelled (name : String) : Option (List Char) → String
  | none => name
  | some raw => name ++ ":" ++ String.ofList raw

theorem reads_parameter {name : String} {default : UInt64} {make : UInt64 → Policy}
    (h : Parameterised name default make) (param : Option (List Char)) :
    Reads (spelled name param) ((parameter name default param).map make) := by
  cases param with
  | none => exact .named (.alone h)
  | some raw =>
    have hraw : raw = (String.ofList raw).toList := by simp
    by_cases hdenotes : ∃ n, n ≠ 0 ∧ Denotes (String.ofList raw) n
    · obtain ⟨n, hn, hdenotes⟩ := hdenotes
      rw [hraw, parameter_of_denotes hdenotes hn, ← hraw]
      exact .named (.numbered h hdenotes hn)
    · rw [hraw, parameter_of_not_denotes hdenotes, ← hraw]
      exact .misnumbered rfl ⟨⟨default, make, h⟩, hdenotes⟩

/-- **A text is read in one of three ways.** -/
theorem parseTrimmed_reads (cs : List Char) : Reads (String.ofList cs) (parseTrimmed cs) := by
  obtain ⟨name, param, hcut, htext⟩ : ∃ name param, Text.splitAtFirst ':' cs = (name, param) ∧
      String.ofList cs = spelled (String.ofList name) param := by
    rcases Text.splitAtFirst_cases ':' cs with hnone | ⟨name, raw, hname, rfl⟩
    · exact ⟨cs, none, Text.splitAtFirst_of_not_mem hnone, rfl⟩
    · refine ⟨name, some raw, Text.splitAtFirst_append hname, ?_⟩
      rw [← String.toList_inj]
      simp [spelled]
  rw [htext]
  simp only [parseTrimmed, hcut, htext]
  generalize String.ofList name = name
  split
  · next h =>
    obtain ⟨hname, rfl⟩ := h
    rcases hname with rfl | rfl | rfl
    · exact .named .seq
    · exact .named .sequential
    · exact .named .loop
  · split
    · next h =>
      rcases h with rfl | rfl
      · exact reads_parameter .threaded param
      · exact reads_parameter .omp param
    · split
      · next h => exact h ▸ reads_parameter .device param
      · split
        · next h => exact h ▸ reads_parameter .deviceAsync param
        · exact .unknown

/-! ## The three ends -/

section
variable {text : String} {p : Policy}

theorem parseTrimmed_eq_ok_iff : parseTrimmed text.toList = .ok p ↔ Names text p := by
  refine ⟨fun h => ?_, parseTrimmed_of_names⟩
  have hreads := parseTrimmed_reads text.toList
  rw [h, String.ofList_toList] at hreads
  cases hreads with
  | named hnames => exact hnames

theorem parseTrimmed_eq_invalidParameter_iff {name raw : String} :
    parseTrimmed text.toList = .error (.invalidParameter name raw) ↔
      text = name ++ ":" ++ raw ∧ Misnumbered name raw := by
  constructor
  · intro h
    have hreads := parseTrimmed_reads text.toList
    rw [h, String.ofList_toList] at hreads
    cases hreads with
    | misnumbered htext hwrong => exact ⟨htext, hwrong⟩
  · rintro ⟨rfl, hwrong⟩
    exact parseTrimmed_of_misnumbered hwrong

theorem parseTrimmed_eq_unknown_iff {shown : String} :
    parseTrimmed text.toList = .error (.unknown shown) ↔ shown = text ∧ (∀ q, ¬ Names text q) ∧
      ∀ name raw, text = name ++ ":" ++ raw → ¬ Misnumbered name raw := by
  have hreads := parseTrimmed_reads text.toList
  rw [String.ofList_toList] at hreads
  constructor
  · intro h
    refine ⟨?_, fun q hq => ?_, fun name raw htext hwrong => ?_⟩
    · rw [h] at hreads
      cases hreads with
      | unknown => rfl
    · rw [parseTrimmed_of_names hq] at h
      cases h
    · rw [htext, parseTrimmed_of_misnumbered hwrong] at h
      cases h
  · rintro ⟨rfl, hnames, hwrong⟩
    generalize parseTrimmed shown.toList = read at hreads
    cases hreads with
    | named h => exact absurd h (hnames _)
    | misnumbered htext h => exact absurd h (hwrong _ _ htext)
    | unknown => rfl

end

/-! ## Writing -/

theorem text_cases (p : Policy) : p = .sequential ∨ ∃ name default make n,
    Parameterised name default make ∧ p = make n ∧ p.text = name ++ ":" ++ Text.Numeral.text n := by
  cases p with
  | sequential => exact .inl rfl
  | threaded minChunk => exact .inr ⟨_, _, _, minChunk, .threaded, rfl, rfl⟩
  | device block mode =>
    cases mode with
    | sync => exact .inr ⟨_, _, _, block, .device, rfl, rfl⟩
    | async => exact .inr ⟨_, _, _, block, .deviceAsync, rfl, rfl⟩

theorem text_any_isBlank (p : Policy) : p.text.toList.any Text.isBlank = false := by
  rcases text_cases p with rfl | ⟨name, default, make, n, h, -, htext⟩
  · decide
  · have hname : (name ++ ":").toList.any Text.isBlank = false := by cases h <;> decide
    rw [htext, String.toList_append, List.any_append, hname, Bool.false_or, List.any_eq_false]
    intro c hc
    rw [Text.not_isBlank_of_isDigit (Text.Numeral.text_digits hc)]
    decide

theorem trims_text (p : Policy) : Trims p.text p.text :=
  ⟨.of_any (text_any_isBlank p), [], [], by simp, by simp, by simp⟩

/-- The name that a policy is written with. -/
def word : Policy → String
  | .sequential => "seq"
  | .threaded _ => "threaded"
  | .device _ .sync => "device"
  | .device _ .async => "device-async"

/-- The number that a policy is written with. -/
def number? : Policy → Option UInt64
  | .sequential => none
  | .threaded minChunk => some minChunk
  | .device block _ => some block

theorem eq_of_word_of_number {p q : Policy} (hword : p.word = q.word) (hnumber : p.number? = q.number?) :
    p = q := by
  rcases p with _ | _ | ⟨_, _ | _⟩ <;> rcases q with _ | _ | ⟨_, _ | _⟩ <;>
    simp_all [word, number?]

theorem splitAtFirst_text (p : Policy) : Text.splitAtFirst ':' p.text.toList =
    (p.word.toList, p.number?.map fun n => (Text.Numeral.text n).toList) := by
  have hnumbered : ∀ (name : String) (n : UInt64), ':' ∉ name.toList →
      Text.splitAtFirst ':' (name ++ ":" ++ Text.Numeral.text n).toList =
        (name.toList, some (Text.Numeral.text n).toList) := by
    intro name n hname
    rw [String.toList_append, String.toList_append, List.append_assoc]
    exact Text.splitAtFirst_append hname
  cases p with
  | sequential => rfl
  | threaded minChunk => exact hnumbered "threaded" minChunk (by decide)
  | device block mode =>
    cases mode with
    | sync => exact hnumbered "device" block (by decide)
    | async => exact hnumbered "device-async" block (by decide)

/-- **No two policies have one text**, also where it is not read back. -/
theorem text_inj {p q : Policy} : p.text = q.text ↔ p = q := by
  refine ⟨fun h => ?_, fun h => h ▸ rfl⟩
  have hcut := splitAtFirst_text p
  rw [h, splitAtFirst_text q, Prod.mk.injEq, String.toList_inj] at hcut
  refine eq_of_word_of_number hcut.1.symm ?_
  have hinj : Function.Injective fun n => (Text.Numeral.text n).toList := fun m n hmn =>
    Text.Numeral.text_inj.1 (String.toList_inj.1 hmn)
  exact (Option.map_injective hinj hcut.2).symm

theorem names_text {p : Policy} (h : p.Positive) : Names p.text p := by
  rcases text_cases p with rfl | ⟨name, default, make, n, hname, rfl, htext⟩
  · exact .seq
  · rw [htext]
    exact .numbered hname (Text.Numeral.denotes_text n) ((hname.positive.2 n).1 h)

/-- A grain or a block of zero is written, and is no number that is read. -/
theorem exists_misnumbered_text {p : Policy} (h : ¬ p.Positive) :
    ∃ name, p.text = name ++ ":" ++ "0" ∧ Misnumbered name "0" := by
  rcases text_cases p with rfl | ⟨name, default, make, n, hname, rfl, htext⟩
  · exact absurd trivial h
  · have hzero : n = 0 := by simpa [hname.positive.2] using h
    subst hzero
    refine ⟨name, htext, ⟨default, make, hname⟩, ?_⟩
    rintro ⟨n, hn, hdenotes⟩
    have hparse := Text.Numeral.parse_eq_ok_iff.2 hdenotes
    rw [show "0" = Text.Numeral.text 0 from rfl, Text.Numeral.parse_text] at hparse
    exact hn (Except.ok.inj hparse).symm

/-! ## Texts with blanks around them -/

theorem parse_eq_iff {s : String} {result : Except PolicyTextError Policy} :
    parse s = result ↔ ∃ core, Trims s core ∧ parseTrimmed core.toList = result := by
  simp only [Text.trims_iff, parse]
  constructor
  · intro h
    exact ⟨String.ofList (Text.trimmed s.toList), by simp, by simpa using h⟩
  · rintro ⟨core, hcore, h⟩
    rwa [hcore]

theorem parse_eq_ok_iff {s : String} {p : Policy} : parse s = .ok p ↔ ∃ core, Trims s core ∧ Names core p := by
  simp only [parse_eq_iff, parseTrimmed_eq_ok_iff]

theorem parse_eq_invalidParameter_iff {s name raw : String} : parse s = .error (.invalidParameter name raw) ↔
    Trims s (name ++ ":" ++ raw) ∧ Misnumbered name raw := by
  simp only [parse_eq_iff, parseTrimmed_eq_invalidParameter_iff]
  constructor
  · rintro ⟨_, htrims, rfl, hwrong⟩
    exact ⟨htrims, hwrong⟩
  · rintro ⟨htrims, hwrong⟩
    exact ⟨_, htrims, rfl, hwrong⟩

theorem parse_eq_unknown_iff {s core : String} : parse s = .error (.unknown core) ↔
    Trims s core ∧ (∀ q, ¬ Names core q) ∧ ∀ name raw, core = name ++ ":" ++ raw → ¬ Misnumbered name raw := by
  simp only [parse_eq_iff, parseTrimmed_eq_unknown_iff]
  constructor
  · rintro ⟨_, htrims, rfl, hunknown⟩
    exact ⟨htrims, hunknown⟩
  · rintro ⟨htrims, hunknown⟩
    exact ⟨_, htrims, rfl, hunknown⟩

theorem positive_of_parse {s : String} {p : Policy} (h : parse s = .ok p) : p.Positive := by
  obtain ⟨core, -, hnames⟩ := parse_eq_ok_iff.1 h
  exact hnames.positive

/--
**Texts name policies by one grammar, and policies are written in it.** A
text is read as a policy exactly where what stands between its blanks names
it. It has a wrong number exactly where a name that takes one is followed by
a colon and by anything else, which the refusal repeats, and it is unknown in
all other cases. No policy that is read has a grain or a block of zero; the
others are read back from what is written, and these are refused.
-/
theorem parse_reads (s : String) (p : Policy) :
    (parse s = .ok p ↔ ∃ core, Trims s core ∧ Names core p) ∧
    (∀ name raw, parse s = .error (.invalidParameter name raw) ↔
      Trims s (name ++ ":" ++ raw) ∧ Misnumbered name raw) ∧
    (∀ core, parse s = .error (.unknown core) ↔ Trims s core ∧ (∀ q, ¬ Names core q) ∧
      ∀ name raw, core = name ++ ":" ++ raw → ¬ Misnumbered name raw) ∧
    (parse s = .ok p → p.Positive) ∧
    (p.Positive → parse p.text = .ok p) ∧
    (¬ p.Positive → ∃ name, parse p.text = .error (.invalidParameter name "0")) := by
  refine ⟨parse_eq_ok_iff, fun _ _ => parse_eq_invalidParameter_iff, fun _ => parse_eq_unknown_iff,
    positive_of_parse, fun h => ?_, fun h => ?_⟩
  · exact parse_eq_ok_iff.2 ⟨p.text, trims_text p, names_text h⟩
  · obtain ⟨name, htext, hwrong⟩ := exists_misnumbered_text h
    exact ⟨name, parse_eq_invalidParameter_iff.2 ⟨htext ▸ trims_text p, hwrong⟩⟩

/-- A sign and zeros before the number, wide blanks around the text, and a grain of zero. -/
theorem parse_reads_padded :
    (∃ core, Trims "\u00a0omp:+007\u3000" core ∧ Names core (.threaded 7)) ∧
    (Positive (.threaded 7) ∧ parse (text (.threaded 7)) = .ok (.threaded 7)) ∧
    ¬ Positive (.threaded 0) ∧ ∃ name, parse (text (.threaded 0)) = .error (.invalidParameter name "0") := by
  have hread : parse "\u00a0omp:+007\u3000" = .ok (.threaded 7) := by rfl
  have hzero : ¬ Positive (.threaded 0) := fun h => h rfl
  obtain ⟨hnames, -, -, hpositive, hback, -⟩ := parse_reads "\u00a0omp:+007\u3000" (.threaded 7)
  obtain ⟨-, -, -, -, -, hrefused⟩ := parse_reads "" (.threaded 0)
  exact ⟨hnames.1 hread, ⟨hpositive hread, hback (hpositive hread)⟩, hzero, hrefused hzero⟩

end AdaptiveLoops.Policy
