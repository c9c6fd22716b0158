import Mathlib.Data.List.Sort
import SyntaxAudit.Proofs.Tree.Stack
import SyntaxAudit.Engine

/-! The syntax errors of a file are those of all its erroneous and missing nodes. The walk to them enters
only nodes that are flagged as having an error, and misses none as long as the flags are right: they
are if the flag of each node agrees with the node itself and with the flags of its children. -/
namespace SyntaxAudit

variable {t : Tree}

namespace Node

def Faulty (n : Node t) : Prop := n.row.isError = true ∨ n.row.isMissing = true

def suspects (n : Node t) : List (Node t) := if n.row.hasError then n.children else []

/- What is reported at one node. A node that is both erroneous and missing counts as erroneous. -/
def reported (n : Node t) : List SyntaxError :=
  if n.row.isError then [⟨"syntax error", n.start⟩]
  else if n.row.isMissing then [⟨"missing " ++ n.kind, n.start⟩]
  else []

theorem suspectsDown (n : Node t) : n.suspects.Sublist n.children :=
  Collects.partSublist _ n.children

theorem faultyEq (n : Node t) :
    n.faulty = (if n.row.isError || n.row.isMissing then [n] else []) ++
      n.suspects.flatMap faulty := by
  rw [faulty, suspects]
  congr 1
  split
  · rw [List.flatMap_subtype (g := faulty) fun _ _ => rfl, List.unattach_attach]
  · rfl

theorem faultyCollects :
    Collects (t := t) suspects (fun n => if n.row.isError || n.row.isMissing then [n] else [])
      faulty :=
  ⟨suspectsDown, faultyEq⟩

theorem reportedCollects :
    Collects (t := t) suspects reported fun n => n.faulty.map syntaxError := by
  refine ⟨suspectsDown, fun n => ?_⟩
  have own : (if n.row.isError || n.row.isMissing then [n] else []).map syntaxError =
      n.reported := by
    cases error : n.row.isError <;> cases missing : n.row.isMissing <;>
      simp [reported, syntaxError, error, missing]
  rw [faultyEq, List.map_append, own, List.map_flatMap]

theorem faultyAscending (n : Node t) : n.faulty.Pairwise (· < ·) :=
  faultyCollects.ascending (fun n => Collects.partSublist _ [n]) n

end Node

def Tree.Flagged (t : Tree) : Prop :=
  ∀ n : Node t, n.row.hasError = true ↔ ∃ m, n.Within m ∧ m.Faulty

namespace Tree

theorem Flagged.reaches (flagged : t.Flagged) {n m : Node t} (inside : n.Within m)
    (faulty : m.Faulty) : Relation.ReflTransGen (fun p c => c ∈ p.suspects) n m := by
  induction inside using Relation.ReflTransGen.head_induction_on with
  | refl => exact .refl
  | @head p c child below ih =>
    have flag := (flagged p).mpr ⟨m, below.head child, faulty⟩
    have entered : c ∈ p.suspects := by
      unfold Node.suspects
      rw [if_pos flag]
      exact child
    exact ih.head entered

theorem Flagged.memFaulty (flagged : t.Flagged) {m : Node t} : m ∈ t.root.faulty ↔ m.Faulty := by
  rw [Node.faultyCollects.memKept, Bool.or_eq_true]
  constructor
  · intro found
    exact found.2
  · intro faulty
    exact ⟨flagged.reaches (Node.rootWithin m) faulty, faulty⟩

theorem Flagged.faultyAll (flagged : t.Flagged) :
    t.root.faulty = t.nodes.filter fun n => n.row.isError || n.row.isMissing := by
  have order : (t.nodes.filter fun n => n.row.isError || n.row.isMissing).Pairwise (· < ·) :=
    (List.pairwise_lt_finRange t.size).filter _
  refine (Node.faultyAscending t.root).eq_of_mem_iff order fun m => ?_
  rw [flagged.memFaulty, List.mem_filter, Bool.or_eq_true]
  exact (and_iff_right (List.mem_finRange m)).symm

theorem flaggedFromChildren
    (agree : ∀ n : Node t, n.row.hasError =
      (n.row.isError || n.row.isMissing || n.children.any fun c => c.row.hasError)) :
    t.Flagged := by
  intro n
  induction n using Node.fromChildren with
  | step n ih =>
    rw [agree n, Bool.or_eq_true, Bool.or_eq_true, List.any_eq_true]
    constructor
    · intro flag
      rcases flag with own | ⟨c, child, flag⟩
      · exact ⟨n, .refl, own⟩
      · obtain ⟨m, below, faulty⟩ := (ih c child).mp flag
        exact ⟨m, below.head child, faulty⟩
    · intro found
      obtain ⟨m, inside, faulty⟩ := found
      rcases Relation.ReflTransGen.cases_head inside with same | ⟨c, child, below⟩
      · exact .inl (same ▸ faulty)
      · exact .inr ⟨c, child, (ih c child).mpr ⟨m, below, faulty⟩⟩

end Tree

namespace SourceFile

theorem errorsEnd (f : SourceFile) :
    Walk.Ends Node.suspects Node.reported ⟨[f.tree.root], []⟩ f.errors := by
  have ends := Walk.endsInOutcome Node.reportedCollects ⟨[f.tree.root], []⟩
  have all : Walk.outcome (fun n => n.faulty.map Node.syntaxError) ⟨[f.tree.root], []⟩ =
      f.errors := List.append_nil _
  exact all ▸ ends

theorem errorsComplete (f : SourceFile) (flagged : f.tree.Flagged) :
    Walk.Ends Node.suspects Node.reported ⟨[f.tree.root], []⟩ f.errors ∧
    f.errors = (f.tree.nodes.filter fun n => n.row.isError || n.row.isMissing).map (fun n =>
      ⟨if n.row.isError then "syntax error" else "missing " ++ n.kind, n.start⟩) ∧
    (f.errors ≠ [] ↔ f.hasErrors = true) := by
  have listed : f.errors = (f.tree.nodes.filter fun n => n.row.isError || n.row.isMissing).map
      Node.syntaxError := by
    unfold errors
    rw [flagged.faultyAll]
  refine ⟨errorsEnd f, listed, ?_⟩
  have nonempty : f.errors ≠ [] ↔ ∃ m : Node f.tree, m.Faulty := by
    unfold errors
    rw [Ne, List.map_eq_nil_iff, List.eq_nil_iff_forall_not_mem]
    simp only [flagged.memFaulty, not_forall, not_not]
  rw [nonempty, hasErrors, flagged f.tree.root]
  simp only [Node.rootWithin, true_and]

theorem errorsCompleteNested :
    let row (parent : Option Nat) (kind : String) (named error missing flag : Bool)
        (start stop : Nat) : Row := ⟨parent, kind, named, error, missing, flag, start, stop, none⟩
    let f : SourceFile := ⟨"f.py", .python, ⟨"f\n(x\ny",
      #[row none "module" true false false true 0 6,
        row (some 0) "identifier" true false false false 0 1,
        row (some 0) "ERROR" true true false true 2 4,
        row (some 2) "identifier" true false false false 3 4,
        row (some 2) ")" false false true true 4 4,
        row (some 0) "identifier" true false false false 5 6], [], by decide⟩⟩
    f.tree.Flagged ∧ f.hasErrors = true ∧ f.errors ≠ [] ∧
    f.errors = [⟨"syntax error", ⟨2, 1⟩⟩, ⟨"missing )", ⟨2, 3⟩⟩] := by
  intro row f
  have flagged : f.tree.Flagged := Tree.flaggedFromChildren (by decide)
  obtain ⟨_, listed, nonempty⟩ := errorsComplete f flagged
  exact ⟨flagged, rfl, nonempty.mpr rfl, listed.trans (by decide)⟩

end SourceFile

end SyntaxAudit
