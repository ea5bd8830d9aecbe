/-
A dump shows its tree, and no two trees have one dump.

The text falls into lines again, since no line has a line feed inside
(`splitOn_dump`). A line is its level and its label, since no label begins
with a blank (`indent_label_inj`), and a label says all of a node but its
children (`eq_of_label_of_children`). The children of a node are shown by the
lines behind it, up to the first that is no deeper than the node: whatever
stands behind the lines of a forest, they are those of no other (`Decodes`).
-/
import AdaptiveLoops.Proofs.Policy.Text
import AdaptiveLoops.Proofs.Statement.Positions
import AdaptiveLoops.Statement.Dump

namespace AdaptiveLoops.Statement

/-! ## Labels -/

/-- The first word of a label. -/
def keyword : Statement → String
  | .loop _ _ _ => "for"
  | .kernel _ _ => "kernel"
  | .segments _ _ _ => "segments"
  | .barrier => "sync"
  | .call => "lambda"

/-- The rest of a label, behind its first blank. -/
def fields? : Statement → Option String
  | .loop dim policy _ => some ("dim=" ++ Nat.repr dim ++ " " ++ ("policy=" ++ policy.text))
  | .kernel policy _ => some ("policy=" ++ policy.text)
  | .segments dim length _ => some ("dim=" ++ Nat.repr dim ++ " " ++ ("len=" ++ Text.Numeral.text length))
  | .barrier => none
  | .call => none

theorem splitAtFirst_label (s : Statement) :
    Text.splitAtFirst ' ' s.label.toList = (s.keyword.toList, s.fields?.map String.toList) := by
  have hcut : ∀ word fields : String, ' ' ∉ word.toList →
      Text.splitAtFirst ' ' (word ++ " " ++ fields).toList = (word.toList, some fields.toList) := by
    intro word fields hword
    rw [String.toList_append, String.toList_append, List.append_assoc]
    exact Text.splitAtFirst_append hword
  cases s with
  | loop dim policy body =>
    simpa [label, keyword, fields?] using
      hcut "for" ("dim=" ++ Nat.repr dim ++ " " ++ ("policy=" ++ policy.text)) (by decide)
  | kernel policy body => simpa [label, keyword, fields?] using hcut "kernel" ("policy=" ++ policy.text) (by decide)
  | segments dim length body =>
    simpa [label, keyword, fields?] using
      hcut "segments" ("dim=" ++ Nat.repr dim ++ " " ++ ("len=" ++ Text.Numeral.text length)) (by decide)
  | barrier => rfl
  | call => rfl

/-- A dimension ends where the next field begins. -/
theorem dim_fields_inj {dim dim' : Nat} {rest rest' : String}
    (h : "dim=" ++ Nat.repr dim ++ " " ++ rest = "dim=" ++ Nat.repr dim' ++ " " ++ rest') :
    dim = dim' ∧ rest = rest' := by
  have hcut : ∀ (d : Nat) (r : String), Text.splitAtFirst ' ' (Nat.repr d ++ (" " ++ r)).toList =
      ((Nat.repr d).toList, some r.toList) := by
    intro d r
    rw [String.toList_append, String.toList_append]
    exact Text.splitAtFirst_append fun hmem => absurd (Text.Numeral.repr_digits hmem) (by decide)
  rw [String.append_assoc, String.append_assoc, String.append_assoc, String.append_assoc,
    String.append_right_inj] at h
  have hparts := hcut dim rest
  rw [h, hcut dim' rest', Prod.mk.injEq, Option.some.injEq, String.toList_inj, String.toList_inj,
    Text.Numeral.repr_inj] at hparts
  exact ⟨hparts.1.symm, hparts.2.symm⟩

/-- **A node is its label and its children.** -/
theorem eq_of_label_of_children {s t : Statement} (hlabel : s.label = t.label)
    (hchildren : s.children = t.children) : s = t := by
  have hcut := splitAtFirst_label s
  rw [hlabel, splitAtFirst_label t, Prod.mk.injEq, String.toList_inj] at hcut
  obtain ⟨hkeyword, hfields⟩ := hcut
  have hfields : t.fields? = s.fields? := Option.map_injective (fun _ _ => String.toList_inj.1) hfields
  cases s with
  | loop dim policy body =>
    cases t with
    | loop dim' policy' body' =>
      obtain ⟨rfl, hpolicy⟩ := dim_fields_inj (Option.some.inj hfields)
      obtain rfl := Policy.text_inj.1 ((String.append_right_inj _).1 hpolicy)
      rw [show body = body' from hchildren]
    | _ => simp [keyword] at hkeyword
  | kernel policy body =>
    cases t with
    | kernel policy' body' =>
      obtain rfl := Policy.text_inj.1 ((String.append_right_inj _).1 (Option.some.inj hfields))
      rw [show body = body' from hchildren]
    | _ => simp [keyword] at hkeyword
  | segments dim length body =>
    cases t with
    | segments dim' length' body' =>
      obtain ⟨rfl, hlength⟩ := dim_fields_inj (Option.some.inj hfields)
      obtain rfl := Text.Numeral.text_inj.1 ((String.append_right_inj _).1 hlength)
      rw [show body = body' from hchildren]
    | _ => simp [keyword] at hkeyword
  | barrier =>
    cases t with
    | barrier => rfl
    | _ => simp [keyword] at hkeyword
  | call =>
    cases t with
    | call => rfl
    | _ => simp [keyword] at hkeyword

/-! ## Lines -/

/-- The number of blanks that a line begins with. -/
def indentation (line : List Char) : Nat :=
  (line.takeWhile (· == ' ')).length

theorem toList_indent (level : Nat) (line : String) :
    (indent level line).toList = List.replicate (2 * level) ' ' ++ line.toList := by
  rw [indent, String.toList_append, String.toList_ofList]

theorem takeWhile_label (s : Statement) : s.label.toList.takeWhile (· == ' ') = [] := by
  have hword : (Text.splitAtFirst ' ' s.label.toList).1 ≠ [] := by
    rw [splitAtFirst_label]
    cases s <;> simp [keyword]
  cases hs : s.label.toList with
  | nil => rfl
  | cons c cs =>
    refine List.takeWhile_cons_of_neg fun hc => hword ?_
    rw [beq_iff_eq] at hc
    subst hc
    rw [hs]
    rfl

theorem indentation_indent_label (level : Nat) (s : Statement) :
    indentation (indent level s.label).toList = 2 * level := by
  rw [indentation, toList_indent, List.takeWhile_append_of_pos (by simp), takeWhile_label, List.append_nil,
    List.length_replicate]

theorem indent_label_inj {level level' : Nat} {s t : Statement}
    (h : indent level s.label = indent level' t.label) : s.label = t.label := by
  have hlevel : 2 * level = 2 * level' := by rw [← indentation_indent_label level s, h, indentation_indent_label]
  have hlines := congrArg String.toList h
  rw [toList_indent, toList_indent, hlevel, List.append_cancel_left_eq, String.toList_inj] at hlines
  exact hlines

/-! ## From lines to trees -/

/-- What goes on with these lines is no longer as deep as `level`. -/
def Shallower (level : Nat) (lines : List String) : Prop :=
  ∀ line ∈ lines.head?, indentation line.toList < 2 * level

theorem shallower_linesBelow {level : Nat} {rest : List String} (h : Shallower level rest) (ss : List Statement) :
    Shallower (level + 1) (linesBelow level ss ++ rest) := by
  cases ss with
  | nil =>
    intro line hline
    have hlt := h line hline
    omega
  | cons s ss =>
    intro line hline
    rw [linesBelow, linesAt_eq] at hline
    obtain rfl := Option.some.inj hline
    rw [indentation_indent_label]
    omega

/-- Whatever stands behind the lines of `ss`, they are the lines of no other forest. -/
def Decodes (ss : List Statement) : Prop :=
  ∀ (level : Nat) (ts : List Statement) (rest rest' : List String), Shallower level rest → Shallower level rest' →
    linesBelow level ss ++ rest = linesBelow level ts ++ rest' → ss = ts ∧ rest = rest'

theorem not_shallower_cons {level : Nat} {s : Statement} {ss : List Statement} {rest rest' : List String}
    (h : linesBelow level (s :: ss) ++ rest = rest') : ¬ Shallower level rest' := by
  intro hrest
  rw [linesBelow, linesAt_eq] at h
  have hlt := hrest (indent level s.label) (by rw [← h]; rfl)
  rw [indentation_indent_label] at hlt
  exact Nat.lt_irrefl _ hlt

theorem Decodes.cons {s : Statement} {ss : List Statement} (hchildren : Decodes s.children) (hrest : Decodes ss) :
    Decodes (s :: ss) := by
  intro level ts rest rest' hshallow hshallow' h
  cases ts with
  | nil => exact absurd hshallow' (not_shallower_cons h)
  | cons t ts =>
    rw [linesBelow, linesBelow, linesAt_eq, linesAt_eq, List.append_assoc, List.append_assoc, List.cons_append,
      List.cons_append, List.cons.injEq] at h
    obtain ⟨hline, hlater⟩ := h
    obtain ⟨hbelow, hlater⟩ := hchildren (level + 1) t.children _ _ (shallower_linesBelow hshallow ss)
      (shallower_linesBelow hshallow' ts) hlater
    obtain ⟨rfl, rfl⟩ := hrest level ts rest rest' hshallow hshallow' hlater
    obtain rfl := eq_of_label_of_children (indent_label_inj hline) hbelow
    exact ⟨rfl, rfl⟩

/-- **The lines of a forest are those of no other one.** -/
theorem decodes (ss : List Statement) : Decodes ss := by
  induction ss using forest_induction with
  | nil =>
    intro level ts rest rest' hshallow _ h
    cases ts with
    | nil => exact ⟨rfl, h⟩
    | cons t ts => exact absurd hshallow (not_shallower_cons h.symm)
  | cons s rest hchildren hrest => exact hchildren.cons hrest

theorem lines_inj {s t : Statement} (h : s.lines = t.lines) : s = t := by
  have hnone : Shallower 0 [] := by
    intro line hline
    cases hline
  have hforest : linesBelow 0 [s] ++ [] = linesBelow 0 [t] ++ [] := by
    simpa [linesBelow, lines] using h
  exact List.singleton_inj.1 (decodes [s] 0 [t] [] [] hnone hnone hforest).1

/-! ## From the text to its lines -/

theorem newline_not_mem_label (s : Statement) : '\n' ∉ s.label.toList := by
  have hrepr : ∀ n : Nat, '\n' ∉ (Nat.repr n).toList := fun n hmem =>
    absurd (Text.Numeral.repr_digits hmem) (by decide)
  have hpolicy : ∀ p : Policy, '\n' ∉ p.text.toList := by
    intro p hmem
    have hblank := List.any_eq_false.1 (Policy.text_any_isBlank p) '\n' hmem
    exact hblank (by decide)
  cases s with
  | loop dim policy body =>
    simp only [label, String.toList_append, List.mem_append, not_or]
    exact ⟨⟨⟨by decide, hrepr dim⟩, by decide⟩, hpolicy policy⟩
  | kernel policy body =>
    simp only [label, String.toList_append, List.mem_append, not_or]
    exact ⟨by decide, hpolicy policy⟩
  | segments dim length body =>
    simp only [label, String.toList_append, List.mem_append, not_or]
    exact ⟨⟨⟨by decide, hrepr dim⟩, by decide⟩, hrepr length.toNat⟩
  | barrier => decide
  | call => decide

theorem splitOn_join {lines : List String} (h : ∀ line ∈ lines, '\n' ∉ line.toList) :
    (String.join (lines.map (· ++ "\n"))).toList.splitOn '\n' = lines.map String.toList ++ [[]] := by
  induction lines with
  | nil => rfl
  | cons line lines ih =>
    rw [List.forall_mem_cons] at h
    rw [List.map_cons, String.join_cons, String.toList_append, String.toList_append, List.append_assoc]
    exact (List.splitOn_append_cons_self_of_not_mem h.1 _).trans (congrArg (line.toList :: ·) (ih h.2))

theorem linesBelow_eq_map (above ss : List Statement) :
    linesBelow above.length ss = (positionsOfAll above ss).map fun p => indent p.above.length p.node.label := by
  induction ss using forest_induction generalizing above with
  | nil => rfl
  | cons s rest hchildren hrest =>
    have hbelow : linesBelow (above.length + 1) s.children = _ := hchildren (s :: above)
    rw [linesBelow, positionsOfAll, linesAt_eq, positionsBelow_eq, List.map_append, List.map_cons, hbelow,
      hrest above]

/-- **There is a line for every node**, in pre-order. -/
theorem lines_eq_map (s : Statement) :
    s.lines = s.positions.map fun p => indent p.above.length p.node.label := by
  have hforest := linesBelow_eq_map [] [s]
  rwa [linesBelow, linesBelow, positionsOfAll, positionsOfAll, List.append_nil, List.append_nil] at hforest

/-- **The text falls into the lines of the nodes**, each of them closed by a line feed. -/
theorem splitOn_dump (s : Statement) : s.dump.toList.splitOn '\n' = s.lines.map String.toList ++ [[]] := by
  refine splitOn_join fun line hline hmem => ?_
  rw [lines_eq_map, List.mem_map] at hline
  obtain ⟨p, -, rfl⟩ := hline
  rw [toList_indent, List.mem_append, List.mem_replicate] at hmem
  rcases hmem with ⟨-, hblank⟩ | hlabel
  · cases hblank
  · exact newline_not_mem_label p.node hlabel

theorem dump_inj {s t : Statement} : s.dump = t.dump ↔ s = t := by
  refine ⟨fun h => lines_inj ?_, fun h => h ▸ rfl⟩
  have hlines := splitOn_dump s
  rw [h, splitOn_dump t, List.append_cancel_right_eq] at hlines
  exact ((List.map_inj_right fun _ _ => String.toList_inj.1).1 hlines).symm

/-! ## The deepest line -/

theorem depth_eq (s : Statement) : s.depth = depthBelow s.children + 1 := by
  cases s <;> simp [depth, children, depthBelow, Nat.add_comm]

theorem level_lt_depthBelow {above ss : List Statement} {p : Position} (hp : p ∈ positionsOfAll above ss) :
    p.above.length < above.length + depthBelow ss := by
  induction ss using forest_induction generalizing above with
  | nil => cases hp
  | cons s rest hchildren hrest =>
    rw [positionsOfAll, positionsBelow_eq, List.mem_append, List.mem_cons] at hp
    rw [depthBelow, depth_eq]
    rcases hp with (rfl | hp) | hp
    · dsimp only
      omega
    · have hlt := hchildren hp
      rw [List.length_cons] at hlt
      omega
    · have hlt := hrest hp
      omega

theorem exists_level_eq_depthBelow (above : List Statement) {ss : List Statement} (hne : ss ≠ []) :
    ∃ p ∈ positionsOfAll above ss, p.above.length + 1 = above.length + depthBelow ss := by
  induction ss using forest_induction generalizing above with
  | nil => exact absurd rfl hne
  | cons s rest hchildren hrest =>
    simp only [positionsOfAll, positionsBelow_eq, List.mem_append, List.mem_cons, depthBelow, depth_eq]
    by_cases hle : depthBelow rest ≤ depthBelow s.children + 1
    · rw [Nat.max_eq_left hle]
      by_cases hleaf : s.children = []
      · exact ⟨⟨above, s⟩, .inl (.inl rfl), by simp [hleaf, depthBelow]⟩
      · obtain ⟨p, hp, hlevel⟩ := hchildren (s :: above) hleaf
        rw [List.length_cons] at hlevel
        exact ⟨p, .inl (.inr hp), by omega⟩
    · have hsome : rest ≠ [] := by
        rintro rfl
        exact hle (Nat.zero_le _)
      obtain ⟨p, hp, hlevel⟩ := hrest above hsome
      exact ⟨p, .inr hp, by omega⟩

/-- The deepest node of a tree has one node fewer above it than the tree has levels. -/
theorem max?_level (s : Statement) : (s.positions.map (·.above.length)).max? = some (s.depth - 1) := by
  have hforest : positionsOfAll [] [s] = s.positions := List.append_nil _
  have hdepth : depthBelow [s] = s.depth := Nat.max_zero _
  obtain ⟨p, hp, hlevel⟩ := exists_level_eq_depthBelow [] (List.cons_ne_nil s [])
  rw [hdepth, List.length_nil] at hlevel
  rw [← hforest, List.max?_eq_some_iff, List.forall_mem_map]
  refine ⟨List.mem_map.2 ⟨p, hp, by omega⟩, fun q hq => ?_⟩
  have hlt := level_lt_depthBelow hq
  rw [hdepth, List.length_nil] at hlt
  omega

/--
**A dump shows its tree, and no other.** Trees with one text are one tree. The text has a line for each node
in pre-order and nothing else, each with two blanks for every node above its own, and the line that stands
furthest in has twice as many blanks as the tree has levels below its root.
-/
theorem dump_shows (s : Statement) :
    (∀ t : Statement, s.dump = t.dump → s = t) ∧
    s.dump.toList.splitOn '\n' =
      (s.positions.map fun p => List.replicate (2 * p.above.length) ' ' ++ p.node.label.toList) ++ [[]] ∧
    (s.dump.toList.splitOn '\n').dropLast.map indentation = s.positions.map (2 * ·.above.length) ∧
    ((s.dump.toList.splitOn '\n').dropLast.map indentation).max? = some (2 * (s.depth - 1)) := by
  have hlines : s.lines.map (fun line => indentation line.toList) = s.positions.map (2 * ·.above.length) := by
    rw [lines_eq_map, List.map_map]
    exact List.map_congr_left fun p _ => indentation_indent_label p.above.length p.node
  have hindentation : (s.dump.toList.splitOn '\n').dropLast.map indentation = s.positions.map (2 * ·.above.length) := by
    rw [splitOn_dump, List.dropLast_concat, List.map_map]
    exact hlines
  refine ⟨fun t => dump_inj.1, ?_, hindentation, ?_⟩
  · rw [splitOn_dump, lines_eq_map, List.map_map]
    simp only [Function.comp_def, toList_indent]
  · have hmax := max?_level s
    rw [List.max?_eq_some_iff, List.forall_mem_map, List.mem_map] at hmax
    obtain ⟨⟨p, hp, hlevel⟩, hle⟩ := hmax
    rw [hindentation, List.max?_eq_some_iff, List.forall_mem_map]
    exact ⟨List.mem_map.2 ⟨p, hp, by rw [hlevel]⟩, fun q hq => Nat.mul_le_mul_left 2 (hle q hq)⟩

example : (loop 0 .sequential [segments 1 4 [], call]).dump =
    "for dim=0 policy=seq\n  segments dim=1 len=4\n  lambda\n" := by decide +kernel

end AdaptiveLoops.Statement
