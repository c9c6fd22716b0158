import SyntaxAudit.Engine
import SyntaxAudit.Proofs.Engine.Sequence
import SyntaxAudit.Rule.Scripted

/-! The hooks of a rule in the order of their calls on a file: the two that choose a root, the one
that resolves the query where there is one, the one for all nodes together and then the one for each
node. A rule either goes through all of them or stops at the first that fails. -/
namespace SyntaxAudit
open Sequence

def ChosenRoot (r : Rule) (file : SourceFile) (root : Node file.tree) : Prop :=
  ∃ first, r.preFilter file.tree.root = .ok first ∧ r.validateRoot first = .ok root

inductive Chosen (r : Rule) (c : CompiledRule) (file : SourceFile) :
    List (Node file.tree) → Prop where
  | resolved {root query nodes} (chosen : ChosenRoot r file root)
      (own : c.queryFor? file.language = some query)
      (found : r.validateQuery (query file.tree) root none .all = .ok nodes) :
      Chosen r c file (keepAccepted c.regex nodes)
  | matching {root accepts} (chosen : ChosenRoot r file root)
      (own : c.queryFor? file.language = none) (pattern : c.regex = some accepts) :
      Chosen r c file (Node.innermost accepts root)
  | whole {root} (chosen : ChosenRoot r file root) (own : c.queryFor? file.language = none)
      (pattern : c.regex = none) : Chosen r c file [root]

inductive FirstFailure (r : Rule) (c : CompiledRule) (file : SourceFile) :
    HookName → Failure → Prop where
  | preFilter {e} (fails : r.preFilter file.tree.root = .error e) :
      FirstFailure r c file .preFilter e
  | validateRoot {first e} (filtered : r.preFilter file.tree.root = .ok first)
      (fails : r.validateRoot first = .error e) : FirstFailure r c file .validateRoot e
  | validateQuery {root query e} (chosen : ChosenRoot r file root)
      (own : c.queryFor? file.language = some query)
      (fails : r.validateQuery (query file.tree) root none .all = .error e) :
      FirstFailure r c file .validateQuery e
  | validateNodes {nodes e} (chosen : Chosen r c file nodes)
      (fails : r.validateNodes nodes = .error e) : FirstFailure r c file .validateNodes e
  | validateNode {before n after together e} (chosen : Chosen r c file (before ++ n :: after))
      (all : r.validateNodes (before ++ n :: after) = .ok together)
      (earlier : ∀ m ∈ before, ∃ found, r.validateNode m = .ok found)
      (fails : r.validateNode n = .error e) : FirstFailure r c file .validateNode e

def HookName.Chooses : HookName → Prop
  | .preFilter | .validateRoot | .validateQuery => True
  | .validateNodes | .validateNode | .measureNodes => False

section Order
variable {r : Rule} {c : CompiledRule} {file : SourceFile}

def candidatesFrom (r : Rule) (c : CompiledRule) (file : SourceFile) (root : Node file.tree) :
    Outcome (List (Node file.tree)) :=
  match c.queryFor? file.language, c.regex with
  | some query, regex => do
      let nodes ← r.validateQuery (query file.tree) root none .all
      .ok (keepAccepted regex nodes)
  | none, some accepts => .ok (Node.innermost accepts root)
  | none, none => .ok [root]

theorem candidatesEq (r : Rule) (c : CompiledRule) (file : SourceFile) :
    candidates r c file =
      r.preFilter file.tree.root >>= fun first =>
        r.validateRoot first >>= candidatesFrom r c file := rfl

theorem candidatesFromOk {root : Node file.tree} {nodes : List (Node file.tree)}
    (chosen : ChosenRoot r file root) (ok : candidatesFrom r c file root = .ok nodes) :
    Chosen r c file nodes := by
  unfold candidatesFrom at ok
  split at ok
  · rename_i own
    obtain ⟨found, resolved, last⟩ := bindOk.mp ok
    cases last
    exact .resolved chosen own resolved
  · rename_i own pattern
    cases ok
    exact .matching chosen own pattern
  · rename_i own pattern
    cases ok
    exact .whole chosen own pattern

theorem candidatesSound {nodes : List (Node file.tree)} (ok : candidates r c file = .ok nodes) :
    Chosen r c file nodes := by
  rw [candidatesEq] at ok
  obtain ⟨first, filtered, ok⟩ := bindOk.mp ok
  obtain ⟨root, validated, ok⟩ := bindOk.mp ok
  exact candidatesFromOk ⟨first, filtered, validated⟩ ok

theorem candidatesComplete {nodes : List (Node file.tree)} (chosen : Chosen r c file nodes) :
    candidates r c file = .ok nodes := by
  rw [candidatesEq]
  cases chosen with
  | resolved chosen own found =>
    obtain ⟨first, filtered, validated⟩ := chosen
    refine bindOk.mpr ⟨first, filtered, bindOk.mpr ⟨_, validated, ?_⟩⟩
    simp only [candidatesFrom, own]
    exact bindOk.mpr ⟨_, found, rfl⟩
  | matching chosen own pattern =>
    obtain ⟨first, filtered, validated⟩ := chosen
    refine bindOk.mpr ⟨first, filtered, bindOk.mpr ⟨_, validated, ?_⟩⟩
    simp only [candidatesFrom, own, pattern]
  | whole chosen own pattern =>
    obtain ⟨first, filtered, validated⟩ := chosen
    refine bindOk.mpr ⟨first, filtered, bindOk.mpr ⟨_, validated, ?_⟩⟩
    simp only [candidatesFrom, own, pattern]

theorem candidatesFailure {e : Failure} (failed : candidates r c file = .error e) :
    ∃ hook, FirstFailure r c file hook e ∧ hook.Chooses := by
  rw [candidatesEq] at failed
  obtain fails | ⟨first, filtered, failed⟩ := bindError.mp failed
  · exact ⟨_, .preFilter fails, trivial⟩
  · obtain fails | ⟨root, validated, failed⟩ := bindError.mp failed
    · exact ⟨_, .validateRoot filtered fails, trivial⟩
    · unfold candidatesFrom at failed
      split at failed
      · rename_i own
        obtain fails | ⟨found, _, last⟩ := bindError.mp failed
        · exact ⟨_, .validateQuery ⟨first, filtered, validated⟩ own fails, trivial⟩
        · cases last
      · cases failed
      · cases failed

theorem failureCandidates {hook : HookName} {e : Failure} (first : FirstFailure r c file hook e)
    (chooses : hook.Chooses) : candidates r c file = .error e := by
  rw [candidatesEq]
  cases first with
  | preFilter fails => exact bindError.mpr (.inl fails)
  | validateRoot filtered fails =>
    exact bindError.mpr (.inr ⟨_, filtered, bindError.mpr (.inl fails)⟩)
  | validateQuery chosen own fails =>
    obtain ⟨start, filtered, validated⟩ := chosen
    refine bindError.mpr (.inr ⟨start, filtered, bindError.mpr (.inr ⟨_, validated, ?_⟩)⟩)
    simp only [candidatesFrom, own]
    exact bindError.mpr (.inl fails)
  | validateNodes => cases chooses
  | validateNode => cases chooses

theorem findingsOk {found : List Finding} :
    findings r c file = .ok found ↔
      ∃ nodes together each, Chosen r c file nodes ∧ r.validateNodes nodes = .ok together ∧
        List.Forall₂ (fun n out => r.validateNode n = .ok out) nodes each ∧
        found = together ++ each.flatten := by
  constructor
  · intro ok
    obtain ⟨nodes, chosen, ok⟩ := bindOk.mp ok
    obtain ⟨together, all, ok⟩ := bindOk.mp ok
    obtain ⟨each, single, last⟩ := bindOk.mp ok
    cases last
    exact ⟨nodes, together, each, candidatesSound chosen, all, mapMOk.mp single, rfl⟩
  · rintro ⟨nodes, together, each, chosen, all, single, rfl⟩
    refine bindOk.mpr ⟨nodes, candidatesComplete chosen, bindOk.mpr ⟨together, all, ?_⟩⟩
    exact bindOk.mpr ⟨each, mapMOk.mpr single, rfl⟩

theorem findingsEach {nodes : List (Node file.tree)} {report : Node file.tree → List Finding}
    (chosen : Chosen r c file nodes) (all : r.validateNodes nodes = .ok [])
    (single : ∀ n, r.validateNode n = .ok (report n)) :
    findings r c file = .ok (nodes.flatMap report) := by
  refine findingsOk.mpr ⟨nodes, [], nodes.map report, chosen, all, ?_, ?_⟩
  · rw [List.forall₂_map_right_iff, List.forall₂_same]
    exact fun n _ => single n
  · rw [List.nil_append, List.flatMap_def]

theorem findingsFailure {e : Failure} (failed : findings r c file = .error e) :
    ∃ hook, FirstFailure r c file hook e := by
  obtain fails | ⟨nodes, chosen, failed⟩ := bindError.mp failed
  · obtain ⟨hook, first, _⟩ := candidatesFailure fails
    exact ⟨hook, first⟩
  · have chosen := candidatesSound chosen
    obtain fails | ⟨together, all, failed⟩ := bindError.mp failed
    · exact ⟨_, .validateNodes chosen fails⟩
    · obtain fails | ⟨each, _, last⟩ := bindError.mp failed
      · obtain ⟨before, n, after, rfl, earlier, wrong⟩ := mapMError.mp fails
        exact ⟨_, .validateNode chosen all earlier wrong⟩
      · cases last

theorem failureFindings {hook : HookName} {e : Failure} (first : FirstFailure r c file hook e) :
    findings r c file = .error e := by
  cases first with
  | preFilter fails =>
    exact bindError.mpr (.inl (failureCandidates (.preFilter fails) trivial))
  | validateRoot filtered fails =>
    exact bindError.mpr (.inl (failureCandidates (.validateRoot filtered fails) trivial))
  | validateQuery chosen own fails =>
    exact bindError.mpr (.inl (failureCandidates (.validateQuery chosen own fails) trivial))
  | validateNodes chosen fails =>
    exact bindError.mpr (.inr ⟨_, candidatesComplete chosen, bindError.mpr (.inl fails)⟩)
  | validateNode chosen all earlier fails =>
    refine bindError.mpr (.inr ⟨_, candidatesComplete chosen, bindError.mpr (.inr ⟨_, all, ?_⟩)⟩)
    exact bindError.mpr (.inl (mapMError.mpr ⟨_, _, _, rfl, earlier, fails⟩))

end Order
end SyntaxAudit
