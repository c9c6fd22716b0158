import SyntaxAudit.Proofs.Engine.Composition

/-! When an engine can be built. It takes a query that compiles for every dialect and a pattern that
compiles, in every rule that runs. Otherwise the error is that of the first rule where one of them
does not, and of the query before the pattern. Rules that do not run have no say in it. -/
namespace SyntaxAudit
open Sequence

def Registry.Runs (g : Registry) (r : Rule) : Prop :=
  r.name ∉ g.disabled ∧ (g.enabled = [] ∨ r.name ∈ g.enabled)

instance (g : Registry) (r : Rule) : Decidable (g.Runs r) := by
  unfold Registry.Runs; infer_instance

def QueryCompiles (c : Compilers) (m : Metadata) : Prop :=
  ∀ source, m.query = some source →
    ∀ dialect ∈ m.language.dialects, ∃ query, c.query dialect source = .ok query

def PatternCompiles (c : Compilers) (m : Metadata) : Prop :=
  ∀ pattern, m.regex = some pattern → ∃ accepts, c.regex pattern = .ok accepts

structure Compiles (c : Compilers) (r : Rule) : Prop where
  query : QueryCompiles c r.metadata
  pattern : PatternCompiles c r.metadata

/- What is wrong with a rule that does not compile. A pattern is to blame only if no query is, and a
dialect only if none before it is. -/
inductive Broken (c : Compilers) (r : Rule) : EngineError → Prop where
  | query {source before dialect after cause} (declared : r.metadata.query = some source)
      (order : r.metadata.language.dialects = before ++ dialect :: after)
      (earlier : ∀ d ∈ before, ∃ query, c.query d source = .ok query)
      (fails : c.query dialect source = .error cause) : Broken c r (.query r.name dialect cause)
  | regex {pattern cause} (queries : QueryCompiles c r.metadata)
      (declared : r.metadata.regex = some pattern) (fails : c.regex pattern = .error cause) :
      Broken c r (.regex r.name cause)

section Rule
variable {c : Compilers} {r : Rule} {error : EngineError}

theorem compileForTotal {source : String} {dialect : Language} :
    (∃ entry, CompiledRule.compileFor c r source dialect = .ok entry) ↔
      ∃ query, c.query dialect source = .ok query := by
  unfold CompiledRule.compileFor
  cases c.query dialect source <;> simp

theorem compileForError {source : String} {dialect : Language} :
    CompiledRule.compileFor c r source dialect = .error error ↔
      ∃ cause, c.query dialect source = .error cause ∧ error = .query r.name dialect cause := by
  unfold CompiledRule.compileFor
  cases c.query dialect source <;> simp [eq_comm]

theorem compileQueriesTotal :
    (∃ queries, CompiledRule.compileQueries c r = .ok queries) ↔ QueryCompiles c r.metadata := by
  unfold CompiledRule.compileQueries QueryCompiles
  cases r.metadata.query with
  | none => simp
  | some source => simp only [mapMTotal, compileForTotal, Option.some.injEq, forall_eq']

theorem compileRegexTotal :
    (∃ regex, CompiledRule.compileRegex c r = .ok regex) ↔ PatternCompiles c r.metadata := by
  unfold CompiledRule.compileRegex PatternCompiles
  cases r.metadata.regex with
  | none => simp
  | some pattern => cases outcome : c.regex pattern <;> simp [outcome]

theorem compileRegexError :
    CompiledRule.compileRegex c r = .error error ↔
      ∃ pattern cause, r.metadata.regex = some pattern ∧ c.regex pattern = .error cause ∧
        error = .regex r.name cause := by
  unfold CompiledRule.compileRegex
  cases r.metadata.regex with
  | none => simp
  | some pattern => cases outcome : c.regex pattern <;> simp [outcome, eq_comm]

theorem compileQueriesError :
    CompiledRule.compileQueries c r = .error error ↔
      ∃ source before dialect after cause, r.metadata.query = some source ∧
        r.metadata.language.dialects = before ++ dialect :: after ∧
        (∀ d ∈ before, ∃ query, c.query d source = .ok query) ∧
        c.query dialect source = .error cause ∧ error = .query r.name dialect cause := by
  unfold CompiledRule.compileQueries
  cases r.metadata.query with
  | none => simp
  | some source =>
    simp only [mapMError, compileForTotal, compileForError, Option.some.injEq]
    constructor
    · rintro ⟨before, dialect, after, order, earlier, cause, fails, named⟩
      exact ⟨source, before, dialect, after, cause, rfl, order, earlier, fails, named⟩
    · rintro ⟨_, before, dialect, after, cause, rfl, order, earlier, fails, named⟩
      exact ⟨before, dialect, after, order, earlier, cause, fails, named⟩

theorem compileTotal : (∃ compiled, CompiledRule.compile c r = .ok compiled) ↔ Compiles c r := by
  constructor
  · rintro ⟨compiled, ok⟩
    obtain ⟨queries, first, ok⟩ := bindOk.mp ok
    obtain ⟨regex, second, _⟩ := bindOk.mp ok
    exact ⟨compileQueriesTotal.mp ⟨queries, first⟩, compileRegexTotal.mp ⟨regex, second⟩⟩
  · rintro ⟨query, pattern⟩
    obtain ⟨queries, first⟩ := compileQueriesTotal.mpr query
    obtain ⟨regex, second⟩ := compileRegexTotal.mpr pattern
    exact ⟨⟨queries, regex⟩, bindOk.mpr ⟨queries, first, bindOk.mpr ⟨regex, second, rfl⟩⟩⟩

theorem compileError : CompiledRule.compile c r = .error error ↔ Broken c r error := by
  constructor
  · intro failed
    obtain wrong | ⟨queries, first, failed⟩ := bindError.mp failed
    · obtain ⟨source, before, dialect, after, cause, declared, order, earlier, fails, rfl⟩ :=
        compileQueriesError.mp wrong
      exact .query declared order earlier fails
    · obtain wrong | ⟨regex, _, last⟩ := bindError.mp failed
      · obtain ⟨pattern, cause, declared, fails, rfl⟩ := compileRegexError.mp wrong
        exact .regex (compileQueriesTotal.mp ⟨queries, first⟩) declared fails
      · cases last
  · intro broken
    cases broken with
    | query declared order earlier fails =>
      have wrong := compileQueriesError.mpr ⟨_, _, _, _, _, declared, order, earlier, fails, rfl⟩
      exact bindError.mpr (.inl wrong)
    | regex queries declared fails =>
      obtain ⟨compiled, first⟩ := compileQueriesTotal.mpr queries
      have wrong := compileRegexError.mpr ⟨_, _, declared, fails, rfl⟩
      exact bindError.mpr (.inr ⟨compiled, first, bindError.mpr (.inl wrong)⟩)

end Rule

section Registry
variable {c : Compilers} {g : Registry}

theorem enabledRuns (g : Registry) : g.enabledRules = g.rules.filter fun r => g.Runs r := by
  unfold Registry.enabledRules
  congr 1
  funext r
  rw [Bool.eq_iff_iff]
  simp [Registry.allows, Registry.Runs, and_comm]

theorem buildTotal :
    (∃ e, Engine.build c g = .ok e) ↔ ∀ r ∈ g.rules, g.Runs r → Compiles c r := by
  have rules : (∃ e, Engine.build c g = .ok e) ↔
      ∃ compiled, g.enabledRules.mapM (CompiledRule.compile c) = .ok compiled := by
    simp [Engine.build, bindOk]
  simp only [rules, mapMTotal, compileTotal, enabledRuns, List.mem_filter, decide_eq_true_eq,
    and_imp]

theorem firstKept {α : Type} {xs : List α} {keep : α → Bool} {fine wrong : α → Prop} :
    (∃ before x after, xs.filter keep = before ++ x :: after ∧ (∀ y ∈ before, fine y) ∧ wrong x) ↔
      ∃ before x after, xs = before ++ x :: after ∧ keep x = true ∧
        (∀ y ∈ before, keep y = true → fine y) ∧ wrong x := by
  constructor
  · rintro ⟨before, x, after, split, earlier, here⟩
    -- Between the kept elements in front and `x` there may be some that are not kept.
    obtain ⟨front, back, rfl, rfl, rest⟩ := List.filter_eq_append_iff.mp split
    obtain ⟨skipped, tail, rfl, dropped, kept, _⟩ := List.filter_eq_cons_iff.mp rest
    refine ⟨front ++ skipped, x, tail, by simp, kept, fun y mem keeps => ?_, here⟩
    rcases List.mem_append.mp mem with inside | outside
    · exact earlier y (List.mem_filter.mpr ⟨inside, keeps⟩)
    · exact absurd keeps (dropped y outside)
  · rintro ⟨before, x, after, rfl, kept, earlier, here⟩
    refine ⟨before.filter keep, x, after.filter keep, ?_, fun y mem => ?_, here⟩
    · rw [List.filter_append, List.filter_cons_of_pos kept]
    · obtain ⟨inside, keeps⟩ := List.mem_filter.mp mem
      exact earlier y inside keeps

theorem buildError {error : EngineError} :
    Engine.build c g = .error error ↔
      ∃ before r after, g.rules = before ++ r :: after ∧ g.Runs r ∧
        (∀ s ∈ before, g.Runs s → Compiles c s) ∧ Broken c r error := by
  have rules : Engine.build c g = .error error ↔
      g.enabledRules.mapM (CompiledRule.compile c) = .error error := by
    simp [Engine.build, bindError]
  simp only [rules, mapMError, compileTotal, compileError, enabledRuns]
  rw [firstKept]
  simp only [decide_eq_true_eq]

end Registry

theorem buildFailsAtFirst (c : Compilers) (g : Registry) :
    ((∃ e, Engine.build c g = .ok e) ↔ ∀ r ∈ g.rules, g.Runs r → Compiles c r) ∧
    (∀ error, Engine.build c g = .error error ↔
      ∃ before r after, g.rules = before ++ r :: after ∧ g.Runs r ∧
        (∀ s ∈ before, g.Runs s → Compiles c s) ∧ Broken c r error) ∧
    (Engine.build c { g with rules := g.rules.filter fun r => g.Runs r }).map Engine.compiled =
      (Engine.build c g).map Engine.compiled := by
  refine ⟨buildTotal, fun error => buildError, ?_⟩
  have same : ({ g with rules := g.rules.filter fun r => g.Runs r } : Registry).enabledRules =
      g.enabledRules := by
    rw [enabledRuns, enabledRuns]
    exact List.filter_eq_self.mpr fun r mem => (List.mem_filter.mp mem).2
  rw [buildOutcome, buildOutcome, same]

theorem buildFailsAtDialect :
    let compilers : Compilers :=
      ⟨fun language _ => if language = .typescript then .ok fun _ => ⟨0, [], fun _ => [], fun _ => []⟩
        else .error "no such node", fun _ => .error "unclosed group"⟩
    let off : Rule := Rule.declared { name := "off", query := some "(x)" }
    let typed : Rule := Rule.declared
      { name := "typed", language := .typescript, query := some "(x)", regex := some "(" }
    let late : Rule := Rule.declared { name := "late", regex := some "(" }
    let g : Registry := { rules := [off, typed, late], disabled := ["off"] }
    Broken compilers off (.query "off" .python "no such node") ∧
    Broken compilers late (.regex "late" "unclosed group") ∧
    Engine.build compilers g = .error (.query "typed" .tsx "no such node") := by
  intro compilers off typed late g
  have order : Language.python.dialects = [] ++ [.python] := rfl
  have dialects : Language.typescript.dialects = [.typescript] ++ [.tsx] := rfl
  refine ⟨.query rfl order nofun rfl, .regex nofun rfl rfl, ?_⟩
  refine ((buildFailsAtFirst compilers g).2.1 _).mpr ⟨[off], typed, [late], rfl, by decide, ?_, ?_⟩
  · intro s mem runs
    rw [List.mem_singleton.mp mem] at runs
    exact absurd List.mem_cons_self runs.1
  · refine .query rfl dialects (fun d mem => ?_) rfl
    rw [List.mem_singleton.mp mem]
    exact ⟨_, rfl⟩

end SyntaxAudit
