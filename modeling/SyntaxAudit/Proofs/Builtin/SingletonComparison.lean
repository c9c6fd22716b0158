import SyntaxAudit.Proofs.Engine.OwnReport
import SyntaxAudit.Proofs.Engine.Ranking
import SyntaxAudit.Proofs.Resolution

/-! What is reported of comparisons with singletons. The rule takes what the pattern for `None` finds
and then, unless it is set to ignore them, what the pattern for booleans finds. It reports those that
an equality operator stands next to, and names that operator. -/
namespace SyntaxAudit.Builtin

def Equality (kind : String) : Prop := kind = "==" ∨ kind = "!="

instance (kind : String) : Decidable (Equality kind) := by
  unfold Equality; infer_instance

section Operator
variable {t : Tree}

def Compared (n : Node t) : Prop :=
  (∃ s ∈ n.previousSibling?, Equality s.kind) ∨ ∃ s ∈ n.nextSibling?, Equality s.kind

instance (n : Node t) : Decidable (Compared n) := by
  unfold Compared; infer_instance

inductive ComparedBy (n : Node t) : String → Prop where
  | before {s} (there : n.previousSibling? = some s) (equality : Equality s.kind) :
      ComparedBy n s.kind
  | behind {s} (other : ∀ s ∈ n.previousSibling?, ¬ Equality s.kind)
      (there : n.nextSibling? = some s) (equality : Equality s.kind) : ComparedBy n s.kind

end Operator

inductive Replaces : String → String → Prop where
  | equal : Replaces "==" "is"
  | unequal : Replaces "!=" "is not"

structure ReportsComparison (g : Registry) (file : SourceFile) (n : Node file.tree) (f : Finding) :
    Prop where
  filed : f.FiledBy g singletonComparison file n
  texts : ∃ operator replacement, ComparedBy n operator ∧ Replaces operator replacement ∧
    f.suggestion = some ("Replace '" ++ operator ++ "' with '" ++ replacement ++ "'") ∧
    f.message = "Comparison to " ++ n.text ++ " should use '" ++ replacement ++ "'"

def singletons {N : Type} (q : Query N) (root : N) (s : Settings) : List N :=
  q.filtered root none (.pattern 0) ++
    if s.get "ignore-booleans" = "true" then [] else q.filtered root none (.pattern 1)

section Operator
variable {t : Tree} {n : Node t}

theorem isEqualityIff (kind : String) : isEquality kind = true ↔ Equality kind := by
  simp [isEquality, Equality]

theorem operatorBefore {s : Node t} (there : n.previousSibling? = some s)
    (equality : Equality s.kind) : equalityOperator? n = some s.kind := by
  have test := (isEqualityIff s.kind).mpr equality
  simp [equalityOperator?, there, test]

theorem operatorBehind (other : ∀ s ∈ n.previousSibling?, ¬ Equality s.kind) :
    equalityOperator? n = (n.nextSibling?.map Node.kind).filter isEquality := by
  have first : ∀ s, n.previousSibling? = some s → isEquality s.kind = false := fun s there =>
    Bool.eq_false_iff.mpr fun test => other s there ((isEqualityIff s.kind).mp test)
  cases previous : n.previousSibling? with
  | none =>
    cases next : n.nextSibling? <;> simp [equalityOperator?, previous, next, Option.filter]
  | some s =>
    cases next : n.nextSibling? <;>
      simp [equalityOperator?, previous, next, first s previous, Option.filter]

theorem comparedByIff (n : Node t) (operator : String) :
    equalityOperator? n = some operator ↔ ComparedBy n operator := by
  constructor
  · intro found
    by_cases first : ∃ s ∈ n.previousSibling?, Equality s.kind
    · obtain ⟨s, there, equality⟩ := first
      rw [operatorBefore there equality] at found
      cases found
      exact .before there equality
    · have other : ∀ s ∈ n.previousSibling?, ¬ Equality s.kind := fun s mem own => first ⟨s, mem, own⟩
      rw [operatorBehind other, Option.filter_eq_some_iff] at found
      obtain ⟨own, test⟩ := found
      obtain ⟨s, there, rfl⟩ := Option.map_eq_some_iff.mp own
      exact .behind other there ((isEqualityIff s.kind).mp test)
  · intro own
    cases own with
    | before there equality => exact operatorBefore there equality
    | @behind s other there equality =>
      rw [operatorBehind other, there, Option.filter_eq_some_iff]
      exact ⟨rfl, (isEqualityIff s.kind).mpr equality⟩

theorem comparedIff (n : Node t) : Compared n ↔ ∃ operator, ComparedBy n operator := by
  constructor
  · intro compared
    by_cases first : ∃ s ∈ n.previousSibling?, Equality s.kind
    · obtain ⟨s, there, equality⟩ := first
      exact ⟨s.kind, .before there equality⟩
    · obtain ⟨s, there, equality⟩ := compared.resolve_left first
      exact ⟨s.kind, .behind (fun s mem own => first ⟨s, mem, own⟩) there equality⟩
  · intro found
    obtain ⟨_, own⟩ := found
    cases own with
    | before there equality => exact .inl ⟨_, there, equality⟩
    | behind _ there equality => exact .inr ⟨_, there, equality⟩

theorem replacesIdentity {operator : String} (own : ComparedBy n operator) :
    Replaces operator (identityFor operator) := by
  have equality : Equality operator := by
    cases own with
    | before _ equality => exact equality
    | behind _ _ equality => exact equality
  rcases equality with rfl | rfl
  · exact .equal
  · exact .unequal

end Operator

section Report
variable {t : Tree} {n : Node t}

theorem comparisonEach (s : Settings) (n : Node t) :
    (singletonComparison.under s).validateNode n = .ok ((singletonComparison.under s).reports n) := by
  unfold Rule.reports Rule.validateNode
  simp only [Rule.under, singletonComparison]
  split <;> rfl

theorem comparisonSkipped (apart : ¬ Compared n) : singletonComparison.reports n = [] := by
  have none : equalityOperator? n = none := by
    apply Option.eq_none_iff_forall_ne_some.mpr
    intro operator found
    exact apart ((comparedIff n).mpr ⟨operator, (comparedByIff n operator).mp found⟩)
  unfold Rule.reports Rule.validateNode
  simp only [singletonComparison, none]
  rfl

theorem comparisonReported (compared : Compared n) :
    ∃ f, singletonComparison.reports n = [f] ∧ f.MadeBy singletonComparison.toProfile n ∧
      ∃ operator replacement, ComparedBy n operator ∧ Replaces operator replacement ∧
        f.suggestion = some ("Replace '" ++ operator ++ "' with '" ++ replacement ++ "'") ∧
        f.message = "Comparison to " ++ n.text ++ " should use '" ++ replacement ++ "'" := by
  obtain ⟨operator, own⟩ := (comparedIff n).mp compared
  have found := (comparedByIff n operator).mpr own
  let f := ((Finding.ofRule singletonComparison.metadata n).withMessage
    ("Comparison to " ++ n.text ++ " should use '" ++ identityFor operator ++ "'")).withSuggestion
    ("Replace '" ++ operator ++ "' with '" ++ identityFor operator ++ "'")
  have made : f.MadeBy singletonComparison.toProfile n :=
    Finding.madeWithSuggestion (Finding.madeWithMessage (Finding.madeOfRule _ n) _) _
  refine ⟨f, ?_, made, operator, identityFor operator, own, replacesIdentity own, rfl, rfl⟩
  unfold Rule.reports Rule.validateNode
  simp only [singletonComparison, found]
  rfl

end Report

section Queried
variable {c : Compilers} {g : Registry} {before after : List Rule} {file : SourceFile}
  {source : String} {query : CompiledQuery} {e : Engine}

theorem comparisonSingly (declared : singletonComparison.metadata.query = some source)
    (s : Settings) : (singletonComparison.under s).Singly source :=
  ⟨fun _ => rfl, fun _ => rfl, declared, rfl, fun _ => rfl, fun n => comparisonEach s n⟩

theorem comparisonQueried {N : Type} {q : Query N} (declares : "target" ∈ q.names)
    (two : q.patternCount = 2) (root : N) {k : Nat} (there : k < 2) :
    q.resolve root none (.pattern k) = q.filtered root none (.pattern k) := by
  apply Query.resolveSearched
  rw [Option.getD_none, Query.searchPattern declares (two ▸ there)]
  exact nofun

theorem singletonsFound {t : Tree} {q : Query (Node t)} (declares : "target" ∈ q.names)
    (two : q.patternCount = 2) (root : Node t) (s : Settings) :
    (singletonComparison.under s).validateQuery q root none .all = .ok (singletons q root s) := by
  have first : q.resolve root none (.pattern nonePattern) = _ :=
    comparisonQueried declares two root (by decide)
  have second : q.resolve root none (.pattern booleanPattern) = _ :=
    comparisonQueried declares two root (by decide)
  unfold Rule.validateQuery
  simp only [Rule.under, singletonComparison, first, second, singletons, ignoresBooleans,
    beq_iff_eq]
  rfl

theorem comparisonReport (built : BuiltOf c g (before ++ singletonComparison :: after) e)
    (runs : g.Runs singletonComparison) (python : file.language = .python)
    (declared : singletonComparison.metadata.query = some source)
    (outcome : c.query .python source = .ok query) (declares : "target" ∈ (query file.tree).names)
    (two : (query file.tree).patternCount = 2) (s : Settings) :
    OwnReport c g before (singletonComparison.under s) after file
      ⟨file.name, ((singletons (query file.tree) file.tree.root s).flatMap
        singletonComparison.reports).map (completed (g.override? "singleton-comparison") file), []⟩ := by
  obtain ⟨e', built'⟩ := builtUnder built s
  have applies : Applies (singletonComparison.under s) file := ⟨rfl, by rw [python]; rfl⟩
  exact reportSingly (comparisonSingly declared s) built' runs applies (python ▸ outcome)
    (singletonsFound declares two file.tree.root s)

theorem comparisonsKept (g : Registry) (file : SourceFile) (nodes : List (Node file.tree)) :
    List.Forall₂ (ReportsComparison g file) (nodes.filter fun n => Compared n)
      ((nodes.flatMap singletonComparison.reports).map
        (completed (g.override? "singleton-comparison") file)) := by
  refine reportsKept (fun n apart => ?_) (fun n kept => ?_) nodes
  · exact comparisonSkipped (of_decide_eq_false apart)
  · obtain ⟨f, listed, made, operator, replacement, own, replaces, suggestion, message⟩ :=
      comparisonReported (of_decide_eq_true kept)
    have ranked := completedRanked (g.override? "singleton-comparison") file f
    refine ⟨f, listed, filedCompleted made, operator, replacement, own, replaces, ?_, ?_⟩
    · rw [ranked.suggestion, suggestion]
    · rw [ranked.message, message]

end Queried

theorem singletonsReported {c : Compilers} {g : Registry} {before after : List Rule}
    {source : String} {query : CompiledQuery} {e : Engine}
    (built : BuiltOf c g (before ++ singletonComparison :: after) e)
    (runs : g.Runs singletonComparison) (file : SourceFile) (python : file.language = .python)
    (declared : singletonComparison.metadata.query = some source)
    (outcome : c.query .python source = .ok query) (declares : "target" ∈ (query file.tree).names)
    (two : (query file.tree).patternCount = 2) :
    (∀ s, ∃ own, OwnReport c g before (singletonComparison.under s) after file own ∧
      own.faults = [] ∧
      List.Forall₂ (ReportsComparison g file)
        ((singletons (query file.tree) file.tree.root s).filter fun n => Compared n) own.results) ∧
    ∀ s s', s.get "ignore-booleans" = "true" → s'.get "ignore-booleans" ≠ "true" →
      ∃ own own' rest, OwnReport c g before (singletonComparison.under s) after file own ∧
        OwnReport c g before (singletonComparison.under s') after file own' ∧
        own'.results = own.results ++ rest ∧
        List.Forall₂ (ReportsComparison g file)
          (((query file.tree).filtered file.tree.root none (.pattern 1)).filter fun n => Compared n)
          rest := by
  have report := comparisonReport built runs python declared outcome declares two
  refine ⟨fun s => ⟨_, report s, rfl, comparisonsKept g file _⟩, fun s s' ignores other => ?_⟩
  refine ⟨_, _, _, report s, report s', ?_, comparisonsKept g file _⟩
  rw [← List.map_append, ← List.flatMap_append]
  simp only [singletons, if_pos ignores, if_neg other, List.append_nil]

/- A chain of comparisons, where the match for the boolean comes first. One singleton has its operator
behind it, one stands between two. -/
theorem singletonsReportedChained :
    let compilers : Compilers :=
      ⟨fun _ _ => .ok fun t => ⟨2, ["target"], fun _ =>
        (t.nodes.filter fun n => n.kind = "true").map (fun n => ⟨1, [⟨"target", n⟩]⟩) ++
          (t.nodes.filter fun n => n.kind = "none").map fun n => ⟨0, [⟨"target", n⟩]⟩, fun _ => []⟩,
        fun _ => .error ""⟩
    let part (kind : String) (named : Bool) (start stop : Nat) : Row :=
      ⟨some 0, kind, named, false, false, false, start, stop, none⟩
    let root : Row := ⟨none, "comparison_operator", true, false, false, false, 0, 25, none⟩
    let file : SourceFile := ⟨"a.py", .python,
      ⟨"None != x == None != True", #[root, part "none" true 0 4, part "!=" false 5 7,
        part "identifier" true 8 9, part "==" false 10 12, part "none" true 13 17,
        part "!=" false 18 20, part "true" true 21 25], [], by decide⟩⟩
    let ignoring := Settings.empty.set "ignore-booleans" "true"
    ∃ own own' rest,
      OwnReport compilers {} [noPrint] (singletonComparison.under ignoring) [] file own ∧
      OwnReport compilers {} [noPrint] (singletonComparison.under .empty) [] file own' ∧
      own.results.map Finding.suggestion =
        [some "Replace '!=' with 'is not'", some "Replace '==' with 'is'"] ∧
      own'.results = own.results ++ rest ∧
      rest.map Finding.suggestion = [some "Replace '!=' with 'is not'"] := by
  intro compilers part root file ignoring
  obtain ⟨e, built⟩ : ∃ e, BuiltOf compilers {} ([noPrint] ++ singletonComparison :: []) e := ⟨_, rfl⟩
  obtain ⟨own, own', rest, first, second, split, _⟩ :=
    (singletonsReported built (by decide) file rfl rfl rfl List.mem_cons_self rfl).2 ignoring .empty
      (by decide) (by decide)
  have none : own.results.map Finding.suggestion =
      [some "Replace '!=' with 'is not'", some "Replace '==' with 'is'"] := by
    obtain ⟨_, _, _, _, _, _, alone, _, rfl, _⟩ := first.joined
    cases alone
    decide +kernel
  have all : own'.results.map Finding.suggestion =
      [some "Replace '!=' with 'is not'", some "Replace '==' with 'is'",
        some "Replace '!=' with 'is not'"] := by
    obtain ⟨_, _, _, _, _, _, alone, _, rfl, _⟩ := second.joined
    cases alone
    decide +kernel
  rw [split, List.map_append, none] at all
  exact ⟨own, own', rest, first, second, none, split, List.append_cancel_left all⟩

end SyntaxAudit.Builtin
