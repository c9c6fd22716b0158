import SyntaxAudit.Proofs.Registry.Effect

/-! Who makes which findings. The rules of the library and the rules that a configuration brings make
a finding under their own name and rank, on a node that they were handed, and leave the file to the
host. This is a matter of their hooks, so it holds however the rules are set. -/
namespace SyntaxAudit
open Rules

namespace Finding
variable {t : Tree} {p : Profile} {n : Node t} {f : Finding}

structure MadeBy (p : Profile) (n : Node t) (f : Finding) : Prop where
  rule : f.rule = p.metadata.name
  priority : f.priority = p.metadata.priority
  severity : f.severity = p.metadata.priority.severity
  node : f.node = n.snapshot
  file : f.file = none

theorem madeOfRule (p : Profile) (n : Node t) : (ofRule p.metadata n).MadeBy p n :=
  ⟨rfl, rfl, rfl, rfl, rfl⟩

theorem madeWithMessage (made : f.MadeBy p n) (message : String) :
    (f.withMessage message).MadeBy p n :=
  ⟨made.rule, made.priority, made.severity, made.node, made.file⟩

theorem madeWithSuggestion (made : f.MadeBy p n) (suggestion : String) :
    (f.withSuggestion suggestion).MadeBy p n :=
  ⟨made.rule, made.priority, made.severity, made.node, made.file⟩

end Finding

def Answers {t : Tree} (p : Profile) (nodes : List (Node t)) (answer : Outcome (List Finding)) :
    Prop :=
  ∀ found, answer = .ok found → ∀ f ∈ found, ∃ n ∈ nodes, f.MadeBy p n

section Answers
variable {t : Tree} {p : Profile} {n : Node t} {f : Finding}

theorem answersNothing (p : Profile) (nodes : List (Node t)) : Answers p nodes (.ok []) := by
  intro found ok f mem
  cases ok
  cases mem

theorem answersOne (made : f.MadeBy p n) : Answers p [n] (.ok [f]) := by
  intro found ok g mem
  cases ok
  rw [List.mem_singleton.mp mem]
  exact ⟨n, List.mem_singleton_self n, made⟩

end Answers

structure Hooks.Faithful (h : Hooks) : Prop where
  together : ∀ p t nodes, Answers p nodes (h.validateNodes p t nodes)
  single : ∀ p t n, Answers p [n] (h.validateNode p t n)

theorem faithfulDeclared (m : Metadata) : (Rule.declared m).hooks.Faithful :=
  ⟨fun p _ nodes => answersNothing p nodes, fun p _ n => answersOne (Finding.madeOfRule p n)⟩

namespace Builtin

theorem faithfulReporting : reporting.Faithful :=
  ⟨fun p _ nodes => answersNothing p nodes, fun p _ n => answersOne (Finding.madeOfRule p n)⟩

theorem faithfulCounting : counting.Faithful :=
  ⟨fun p _ nodes => answersNothing p nodes, fun p _ n => answersNothing p [n]⟩

theorem faithfulTodoComment : todoComment.hooks.Faithful :=
  ⟨fun p _ nodes => answersNothing p nodes,
    fun p _ n => answersOne (Finding.madeWithMessage (Finding.madeOfRule p n) _)⟩

theorem faithfulMaxParameters : maxParameters.hooks.Faithful := by
  refine ⟨fun p _ nodes => answersNothing p nodes, fun p t n => ?_⟩
  simp only [maxParameters]
  split
  · exact answersNothing p [n]
  · exact answersOne (Finding.madeWithMessage (Finding.madeOfRule p n) _)

theorem faithfulSingletonComparison : singletonComparison.hooks.Faithful := by
  refine ⟨fun p _ nodes => answersNothing p nodes, fun p t n => ?_⟩
  simp only [singletonComparison]
  split
  · exact answersNothing p [n]
  · exact answersOne (Finding.madeWithSuggestion
      (Finding.madeWithMessage (Finding.madeOfRule p n) _) _)

theorem repeatsAmong {t : Tree} {seen : List String} {nodes : List (Node t)} {n : Node t}
    (mem : n ∈ repeats seen nodes) : n ∈ nodes := by
  induction nodes generalizing seen with
  | nil => cases mem
  | cons m rest ih =>
    unfold repeats at mem
    split at mem
    · rcases List.mem_cons.mp mem with rfl | inside
      · exact List.mem_cons_self
      · exact List.mem_cons_of_mem m (ih inside)
    · exact List.mem_cons_of_mem m (ih mem)

theorem faithfulDuplicateImport : duplicateImport.hooks.Faithful := by
  refine ⟨fun p t nodes found ok f mem => ?_, fun p _ n => answersNothing p [n]⟩
  cases ok
  obtain ⟨n, again, rfl⟩ := List.mem_map.mp mem
  exact ⟨n, repeatsAmong again, Finding.madeWithMessage (Finding.madeOfRule p n) _⟩

theorem faithfulAll {r : Rule} (mem : r ∈ rules) : r.hooks.Faithful := by
  simp only [rules, List.mem_cons, List.not_mem_nil, or_false] at mem
  rcases mem with rfl | rfl | rfl | rfl | rfl | rfl | rfl | rfl | rfl
  · exact faithfulReporting
  · exact faithfulMaxParameters
  · exact faithfulSingletonComparison
  · exact faithfulTodoComment
  · exact faithfulDuplicateImport
  · exact faithfulReporting
  · exact faithfulReporting
  · exact faithfulCounting
  · exact faithfulCounting

end Builtin

theorem Rule.steadyHooks : Rule.Steady Rule.hooks := by
  intro r key value
  cases value <;> rfl

theorem hooksConfigure {P : Hooks → Prop} {g : Registry} (old : ∀ r ∈ g.reset.rules, P r.hooks)
    (declared : ∀ m, P (Rule.declared m).hooks) (c : RulesConfig) {r : Rule}
    (mem : r ∈ (g.configure c).rules) : P r.hooks := by
  have same := g.configureView Rule.steadyHooks c
  have listed : r.hooks ∈ (g.joined c).rules.map Rule.hooks := same ▸ List.mem_map_of_mem mem
  obtain ⟨s, inside, equal⟩ := List.mem_map.mp listed
  rw [← equal]
  rcases List.mem_append.mp inside with before | new
  · exact old s before
  · rw [Registry.broughtEq] at new
    obtain ⟨e, _, rfl⟩ := List.mem_map.mp new
    exact declared _

theorem faithfulBuiltin {r : Rule} (mem : r ∈ Registry.builtin.reset.rules) : r.hooks.Faithful := by
  have all : Registry.builtin.rules = (addNew [] Builtin.rules).1 := rfl
  rw [Registry.resetPristine rfl rfl, all, addNewRules] at mem
  exact Builtin.faithfulAll (untakenFresh mem).2

theorem faithfulConfigured (c : RulesConfig) {r : Rule}
    (mem : r ∈ (Registry.builtin.configure c).rules) : r.hooks.Faithful :=
  hooksConfigure (fun _ old => faithfulBuiltin old) faithfulDeclared c mem

end SyntaxAudit
