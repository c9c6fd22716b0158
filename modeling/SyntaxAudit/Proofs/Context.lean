import Mathlib.Logic.Relation
import SyntaxAudit.Proofs.Text
import SyntaxAudit.Rule.Metadata

/-! Contexts read off texts. A text is divided at its commas, and the modes read off it are those that
its pieces name. So the modes of two texts with a comma between them are the modes of both, and neither
the order of the pieces nor their spelling means anything. -/
namespace SyntaxAudit.Context

inductive Mode where
  | scan
  | measure
  deriving DecidableEq, Repr

def Mode.name : Mode → String
  | .scan => "scan"
  | .measure => "measure"

def has (c : Context) : Mode → Bool
  | .scan => c.scan
  | .measure => c.measure

inductive Divided : List Char → List (List Char) → Prop where
  | last {p} (whole : ',' ∉ p) : Divided p [p]
  | more {p s ps} (whole : ',' ∉ p) (rest : Divided s ps) : Divided (p ++ ',' :: s) (p :: ps)

def Names (p : List Char) (mode : Mode) : Prop :=
  ∃ word, Text.Trims p word ∧ Text.lowered word = mode.name.toList

inductive Change : List (List Char) → List (List Char) → Prop where
  | reorder {ps qs} (order : ps.Perm qs) : Change ps qs
  | again (before after p) (there : p ∈ before ++ after) :
      Change (before ++ after) (before ++ p :: after)
  | recase (before after p q) (alike : Text.lowered p = Text.lowered q) :
      Change (before ++ p :: after) (before ++ q :: after)
  | pad (before after front p back) (left : ∀ c ∈ front, Text.isBlank c)
      (right : ∀ c ∈ back, Text.isBlank c) :
      Change (before ++ p :: after) (before ++ (front ++ p ++ back) :: after)
  | unknown (before after p) (other : ∀ mode, ¬ Names p mode) :
      Change (before ++ after) (before ++ p :: after)
  | empty (before after) : Change (before ++ after) (before ++ [] :: after)

theorem equalOfHas {c d : Context} (same : ∀ mode, c.has mode ↔ d.has mode) : c = d := by
  obtain ⟨scan, measure⟩ := c
  obtain ⟨scan', measure'⟩ := d
  have scans : scan = scan' := Bool.eq_iff_iff.mpr (same .scan)
  have measures : measure = measure' := Bool.eq_iff_iff.mpr (same .measure)
  rw [scans, measures]

theorem dividedCons {c : Char} {s : List Char} {ps : List (List Char)} (inside : c ≠ ',')
    (divided : Divided s ps) : Divided (c :: s) (ps.modifyHead (c :: ·)) := by
  cases divided with
  | last whole => exact .last (List.not_mem_cons_of_ne_of_not_mem inside.symm whole)
  | more whole rest => exact .more (List.not_mem_cons_of_ne_of_not_mem inside.symm whole) rest

theorem splitDivided (s : List Char) : Divided s (s.splitOn ',') := by
  induction s with
  | nil => exact .last List.not_mem_nil
  | cons c rest ih =>
    rw [List.splitOn_cons_eq_if_modifyHead]
    by_cases comma : c = ','
    · rw [if_pos (beq_iff_eq.mpr comma), comma]
      exact .more List.not_mem_nil ih
    · rw [if_neg (mt beq_iff_eq.mp comma)]
      exact dividedCons comma ih

theorem dividedIff {s : List Char} {ps : List (List Char)} : Divided s ps ↔ ps = s.splitOn ',' := by
  constructor
  · intro divided
    induction divided with
    | last whole => exact (List.splitOn_eq_singleton whole).symm
    | more whole rest ih => rw [List.splitOn_append_cons_self_of_not_mem whole, ih]
  · rintro rfl
    exact splitDivided s

theorem namesIff {p : List Char} {mode : Mode} :
    Names p mode ↔ Text.lowered (Text.trimmed p) = mode.name.toList := by
  constructor
  · intro ⟨word, trims, own⟩
    rw [Text.trimsUnique trims, own]
  · intro own
    exact ⟨Text.trimmed p, Text.trimmedTrims p, own⟩

theorem hasIff (s : String) (mode : Mode) :
    (parse s).has mode ↔ ∃ p ∈ s.toList.splitOn ',', Names p mode := by
  have listed : mode.name.toList ∈ pieces s ↔ ∃ p ∈ s.toList.splitOn ',', Names p mode := by
    simp only [pieces, List.mem_map, namesIff]
  rw [← listed, ← List.contains_iff_mem]
  cases mode <;> rfl

theorem hasJoined (a b : String) (mode : Mode) :
    (parse (a ++ "," ++ b)).has mode ↔ (parse a).has mode ∨ (parse b).has mode := by
  have joined : (a ++ "," ++ b).toList = a.toList ++ ',' :: b.toList := by simp
  simp only [hasIff, joined, List.splitOn_append_cons_self, List.mem_append, or_and_right, exists_or]

theorem namesEmpty (mode : Mode) : ¬ Names [] mode := by
  rw [namesIff]
  cases mode <;> decide

section Changes
variable {ps qs before after : List (List Char)} {p q : List Char} {mode : Mode}

theorem namedAmong :
    (∃ r ∈ before ++ p :: after, Names r mode) ↔
      Names p mode ∨ ∃ r ∈ before ++ after, Names r mode := by
  simp only [List.perm_middle.mem_iff, List.mem_cons, exists_eq_or_imp]

theorem changeNames (change : Change ps qs) (mode : Mode) :
    (∃ p ∈ ps, Names p mode) ↔ ∃ q ∈ qs, Names q mode := by
  cases change with
  | reorder order => simp only [order.mem_iff]
  | again before after p there =>
    rw [namedAmong]
    exact (or_iff_right_of_imp fun own => ⟨p, there, own⟩).symm
  | recase before after p q alike =>
    -- No blank has a case, so the case may be folded before the blanks are taken off.
    rw [namedAmong, namedAmong, namesIff, namesIff, ← Text.trimmedLowered, alike, Text.trimmedLowered]
  | pad before after front p back left right =>
    rw [namedAmong, namedAmong, namesIff, namesIff, Text.trimmedPadded left right]
  | unknown before after p other => rw [namedAmong, or_iff_right (other mode)]
  | empty before after => rw [namedAmong, or_iff_right (namesEmpty mode)]

theorem changesName (changes : Relation.EqvGen Change ps qs) (mode : Mode) :
    (∃ p ∈ ps, Names p mode) ↔ ∃ q ∈ qs, Names q mode := by
  induction changes with
  | rel ps qs change => exact changeNames change mode
  | refl ps => exact Iff.rfl
  | symm ps qs _ ih => exact ih.symm
  | trans ps qs rs _ _ first second => exact first.trans second

end Changes

theorem modesFromPieces :
    (∀ a b mode, (parse (a ++ "," ++ b)).has mode ↔ (parse a).has mode ∨ (parse b).has mode) ∧
    (∀ s : String, ∃ ps, (∀ qs, Divided s.toList qs ↔ qs = ps) ∧
      ∀ mode, (parse s).has mode ↔ ∃ p ∈ ps, Names p mode) ∧
    (∀ s t : String, ∀ ps qs, Divided s.toList ps → Divided t.toList qs →
      Relation.EqvGen Change ps qs → parse s = parse t) ∧
    ∀ c, parse c.text = c := by
  refine ⟨hasJoined, fun s => ⟨_, fun qs => dividedIff, hasIff s⟩, ?_, ?_⟩
  · intro s t ps qs left right changes
    rw [dividedIff] at left right
    subst left right
    apply equalOfHas
    intro mode
    rw [hasIff, hasIff, changesName changes]
  · intro ⟨scan, measure⟩
    cases scan <;> cases measure <;> decide

theorem modesFromRestated :
    parse "scan,measure" = parse " MEASURE ,bogus,,scan,scan" ∧
    parse " MEASURE ,bogus,,scan,scan" = ⟨true, true⟩ := by
  obtain ⟨_, _, restated, back⟩ := modesFromPieces
  let scan := "scan".toList
  let measure := "measure".toList
  let capitals := "MEASURE".toList
  let padded := " MEASURE ".toList
  let bogus := "bogus".toList
  have other : ∀ mode, ¬ Names bogus mode := by
    intro mode
    rw [namesIff]
    cases mode <;> decide
  have swapped : Change [scan, measure] [measure, scan] := .reorder (.swap measure scan [])
  have recased : Change [measure, scan] [capitals, scan] := .recase [] [scan] _ _ (by decide)
  have blank : ∀ c ∈ [' '], Text.isBlank c := List.forall_mem_singleton.mpr rfl
  have spaced : Change [capitals, scan] [padded, scan] :=
    .pad [] [scan] [' '] capitals [' '] blank blank
  have added : Change [padded, scan] [padded, bogus, scan] := .unknown [padded] [scan] bogus other
  have gap : Change [padded, bogus, scan] [padded, bogus, [], scan] := .empty [padded, bogus] [scan]
  have twice : Change [padded, bogus, [], scan] [padded, bogus, [], scan, scan] :=
    .again [padded, bogus, []] [scan] scan (by decide)
  have changes : Relation.ReflTransGen Change [scan, measure] [padded, bogus, [], scan, scan] :=
    (((((Relation.ReflTransGen.single swapped).tail recased).tail spaced).tail added).tail gap).tail
      twice
  have same := restated "scan,measure" " MEASURE ,bogus,,scan,scan" _ _ (dividedIff.mpr rfl)
    (dividedIff.mpr rfl) (Relation.EqvGen.reflTransGen_le_eqvGen _ _ _ changes)
  exact ⟨same, same.symm.trans (back ⟨true, true⟩)⟩

end SyntaxAudit.Context
