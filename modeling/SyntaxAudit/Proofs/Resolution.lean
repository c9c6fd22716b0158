import SyntaxAudit.Rule.Basic

/-! Resolving a capture is filtering what a query finds. The resolver does not run a query for a name
that it does not declare, nor for a pattern that it does not have. This shows in no answer as long as
the query keeps to what it declares. -/
namespace SyntaxAudit.Query

variable {N : Type}

def output (q : Query N) (root : N) : Selector → List (Capture N)
  | .all => q.findCaptures root
  | .pattern k => ((q.findMatches root).filter fun m => m.pattern = k).flatMap Match.captures

def filtered (q : Query N) (root : N) (capture : Option String) (selector : Selector) : List N :=
  ((q.output root selector).filter fun c => c.name = capture.getD "target").map Capture.node

def targets (q : Query N) (root : N) : List N :=
  if "target" ∈ q.names then q.filtered root none .all else []

structure Honest (q : Query N) : Prop where
  captures : ∀ root, ∀ c ∈ q.findCaptures root, c.name ∈ q.names
  matched : ∀ root, ∀ m ∈ q.findMatches root, ∀ c ∈ m.captures, c.name ∈ q.names
  patterns : ∀ root, ∀ m ∈ q.findMatches root, m.pattern < q.patternCount

section Search
variable {q : Query N} {root : N} {capture : Option String} {selector : Selector}

theorem searchAll {name : String} (declared : name ∈ q.names) : q.search name .all = .captures := by
  have test : q.declares name = true := List.contains_iff_mem.mpr declared
  simp only [search, if_pos test]

theorem searchPattern {name : String} {k : Nat} (declared : name ∈ q.names)
    (there : k < q.patternCount) : q.search name (.pattern k) = .matchesOf k := by
  have test : q.declares name = true := List.contains_iff_mem.mpr declared
  simp only [search, if_pos test, if_pos there]

theorem searchCases (q : Query N) (name : String) (selector : Selector) :
    q.search name selector = .nothing ∨ (selector = .all ∧ q.search name selector = .captures) ∨
      ∃ k, selector = .pattern k ∧ q.search name selector = .matchesOf k := by
  unfold search
  split
  · cases selector with
    | all => exact .inr (.inl ⟨rfl, rfl⟩)
    | pattern k =>
      by_cases there : k < q.patternCount
      · exact .inr (.inr ⟨k, rfl, if_pos there⟩)
      · exact .inl (if_neg there)
  · exact .inl rfl

theorem selectMatchesFiltered (found : List (Match N)) (k : Nat) (name : String) :
    selectMatches found k name =
      (((found.filter fun m => m.pattern = k).flatMap Match.captures).filter
        fun c => c.name = name).map Capture.node := by
  simp only [selectMatches, selectCaptures, List.filter_flatMap, List.map_flatMap]

theorem resolveSkipped (skipped : q.search (capture.getD "target") selector = .nothing) :
    q.resolve root capture selector = [] := by
  simp only [resolve, defaultCapture, skipped]

theorem resolveUndeclared (absent : capture.getD "target" ∉ q.names) :
    q.resolve root capture selector = [] := by
  apply resolveSkipped
  have test : q.declares (capture.getD "target") = false := by
    simpa [declares] using absent
  unfold search
  rw [test]
  rfl

theorem resolveSearched (searched : q.search (capture.getD "target") selector ≠ .nothing) :
    q.resolve root capture selector = q.filtered root capture selector := by
  obtain skipped | ⟨rfl, captures⟩ | ⟨k, rfl, matched⟩ :=
    searchCases q (capture.getD "target") selector
  · exact absurd skipped searched
  · simp only [resolve, defaultCapture, captures]
    rfl
  · simp only [resolve, defaultCapture, matched, selectMatchesFiltered]
    rfl

theorem resolveTargets (q : Query N) (root : N) : q.resolve root none .all = q.targets root := by
  unfold targets
  split
  · rename_i declares
    apply resolveSearched
    rw [Option.getD_none, searchAll declares]
    exact nofun
  · rename_i undeclared
    exact resolveUndeclared undeclared

/- The shortcuts show exactly if something is found that the resolver would not have looked for. -/
theorem resolveExact (q : Query N) (root : N) :
    (∀ capture selector, q.resolve root capture selector = q.filtered root capture selector) ↔
      ∀ selector, ∀ c ∈ q.output root selector, q.search c.name selector ≠ .nothing := by
  constructor
  · intro same selector c found skipped
    have empty := same (some c.name) selector
    rw [resolveSkipped skipped] at empty
    have present : c.node ∈ q.filtered root (some c.name) selector :=
      List.mem_map.mpr ⟨c, List.mem_filter.mpr ⟨found, by simp⟩, rfl⟩
    rw [← empty] at present
    cases present
  · intro searched capture selector
    by_cases skipped : q.search (capture.getD "target") selector = .nothing
    · have none : (q.output root selector).filter (fun c => c.name = capture.getD "target") = [] := by
        apply List.filter_eq_nil_iff.mpr
        intro c found named
        have name : c.name = capture.getD "target" := by simpa using named
        exact searched selector c found (name ▸ skipped)
      rw [resolveSkipped skipped, filtered, none, List.map_nil]
    · exact resolveSearched skipped

end Search

theorem shortcutsInvisible {q : Query N} (honest : q.Honest) (root : N) (capture : Option String)
    (selector : Selector) :
    q.resolve root capture selector = q.filtered root capture selector := by
  refine (resolveExact q root).mpr (fun selector c found => ?_) capture selector
  cases selector with
  | all =>
    rw [searchAll (honest.captures root c found)]
    exact nofun
  | pattern k =>
    obtain ⟨m, kept, inside⟩ := List.mem_flatMap.mp found
    obtain ⟨mem, own⟩ := List.mem_filter.mp kept
    have there : k < q.patternCount := by
      have bound := honest.patterns root m mem
      have same : m.pattern = k := by simpa using own
      omega
    rw [searchPattern (honest.matched root m mem c inside) there]
    exact nofun

theorem shortcutsInvisibleRepeats :
    let q : Query Nat :=
      ⟨2, ["target", "other"],
        fun root => [⟨1, [⟨"target", root⟩, ⟨"other", 5⟩, ⟨"target", 8⟩]⟩, ⟨0, [⟨"target", 7⟩]⟩,
          ⟨1, [⟨"target", root⟩]⟩],
        fun root => [⟨"target", 7⟩, ⟨"other", 5⟩, ⟨"target", root⟩]⟩
    q.Honest ∧
    q.resolve 3 none (.pattern 1) = [3, 8, 3] ∧ q.filtered 3 none (.pattern 1) = [3, 8, 3] ∧
    q.resolve 3 (some "missing") .all = q.filtered 3 (some "missing") .all ∧
    q.resolve 3 none (.pattern 2) = q.filtered 3 none (.pattern 2) := by
  intro q
  have honest : q.Honest := by
    refine ⟨fun root => ?_, fun root => ?_, fun root => ?_⟩ <;> simp [q]
  have same := shortcutsInvisible honest 3
  exact ⟨honest, by decide, by rw [← same]; decide, same _ _, same _ _⟩

end SyntaxAudit.Query
