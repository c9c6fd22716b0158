import Mathlib.Logic.Hydra
import SyntaxAudit.Proofs.Tree.Descent

/-! Walks down a tree with a stack. A walk leads from a node to some of its children and takes along what
the node yields. Each turn takes the last node off the stack and puts those that it leads to in its
place, in reverse, so that the first of them comes next. Every walk ends, since children have greater
numbers, and a turn does not change what the walk has in the end: what it has taken along so far, and
then what there is from each node of the stack. -/
namespace SyntaxAudit

/- The nodes that are still to be entered, the next one last, and what has been found. -/
structure Walk (t : Tree) (β : Type) where
  stack : List (Node t)
  found : List β

variable {t : Tree} {β : Type}

structure Collects (leads : Node t → List (Node t)) (yields part : Node t → List β) : Prop where
  down : ∀ n, (leads n).Sublist n.children
  parts : ∀ n, part n = yields n ++ (leads n).flatMap part

namespace Walk

variable {leads : Node t → List (Node t)} {yields part : Node t → List β} {w next : Walk t β}

def turn? (leads : Node t → List (Node t)) (yields : Node t → List β) (w : Walk t β) :
    Option (Walk t β) :=
  w.stack.getLast?.map fun n => ⟨w.stack.dropLast ++ (leads n).reverse, w.found ++ yields n⟩

def Ends (leads : Node t → List (Node t)) (yields : Node t → List β) (w : Walk t β)
    (found : List β) : Prop :=
  Relation.ReflTransGen (fun v next => v.turn? leads yields = some next) w ⟨[], found⟩

def outcome (part : Node t → List β) (w : Walk t β) : List β :=
  w.found ++ w.stack.reverse.flatMap part

theorem turnCases (turn : w.turn? leads yields = some next) :
    ∃ below n, w.stack = below ++ [n] ∧
      next = ⟨below ++ (leads n).reverse, w.found ++ yields n⟩ := by
  unfold turn? at turn
  obtain ⟨n, top, same⟩ := Option.map_eq_some_iff.mp turn
  obtain ⟨below, stack⟩ := List.getLast?_eq_some_iff.mp top
  rw [stack, List.dropLast_concat] at same
  exact ⟨below, n, stack, same.symm⟩

theorem stopped (stop : w.turn? leads yields = none) : w.stack = [] := by
  unfold turn? at stop
  exact List.getLast?_eq_none_iff.mp (Option.map_eq_none_iff.mp stop)

theorem turnKeeps (collects : Collects leads yields part)
    (turn : w.turn? leads yields = some next) : next.outcome part = w.outcome part := by
  obtain ⟨below, n, stack, same⟩ := turnCases turn
  unfold outcome
  rw [stack, same, List.reverse_append, List.reverse_reverse, List.reverse_concat,
    List.flatMap_cons, List.flatMap_append, collects.parts n]
  simp only [List.append_assoc]

/- A turn puts any number of nodes in the place of one, but they all have greater numbers. -/
theorem turnsEnd (down : ∀ n, (leads n).Sublist n.children) :
    WellFounded fun next w : Walk t β => w.turn? leads yields = some next := by
  have heads : WellFounded fun next w : Walk t β =>
      Relation.CutExpand (· > ·) (next.stack : Multiset (Node t)) w.stack :=
    InvImage.wf (fun w : Walk t β => (w.stack : Multiset (Node t)))
      (WellFounded.cutExpand wellFounded_gt)
  refine Subrelation.wf ?_ heads
  intro next w turn
  obtain ⟨below, n, stack, same⟩ := turnCases turn
  refine ⟨leads n, n, ?_, ?_⟩
  · intro c mem
    exact Node.childrenFollow ((down n).subset mem)
  · simp only [stack, same, ← Multiset.coe_add, Multiset.coe_reverse, Multiset.coe_singleton,
      add_right_comm]

theorem endsInOutcome (collects : Collects leads yields part) (w : Walk t β) :
    w.Ends leads yields (w.outcome part) := by
  induction (turnsEnd collects.down).apply w with
  | intro w _ ih =>
    cases turn : w.turn? leads yields with
    | none =>
      obtain ⟨stack, found⟩ := w
      have empty : stack = [] := stopped turn
      subst empty
      have same : outcome part ⟨[], found⟩ = found := List.append_nil found
      rw [same]
      exact .refl
    | some next =>
      have rest := ih next turn
      rw [turnKeeps collects turn] at rest
      exact rest.head turn

end Walk

namespace Collects

variable {leads : Node t → List (Node t)}

theorem partSublist {α : Type} (p : Prop) [Decidable p] (xs : List α) :
    (if p then xs else []).Sublist xs := by
  split
  · exact .refl _
  · exact List.nil_sublist _

theorem within (down : ∀ n, (leads n).Sublist n.children) {n m : Node t}
    (reached : Relation.ReflTransGen (fun p c => c ∈ leads p) n m) : n.Within m :=
  Relation.ReflTransGen.mono (fun p _ mem => (down p).subset mem) _ _ reached

theorem memPart {yields part : Node t → List β} (collects : Collects leads yields part) {n : Node t}
    {x : β} :
    x ∈ part n ↔ ∃ m, Relation.ReflTransGen (fun p c => c ∈ leads p) n m ∧ x ∈ yields m := by
  induction n using Node.fromChildren with
  | step n ih =>
    rw [collects.parts n, List.mem_append, List.mem_flatMap]
    constructor
    · intro mem
      rcases mem with own | ⟨c, child, below⟩
      · exact ⟨n, .refl, own⟩
      · obtain ⟨m, reached, own⟩ := (ih c ((collects.down n).subset child)).mp below
        exact ⟨m, reached.head child, own⟩
    · intro mem
      obtain ⟨m, reached, own⟩ := mem
      rcases Relation.ReflTransGen.cases_head reached with same | ⟨c, child, below⟩
      · exact .inl (same ▸ own)
      · exact .inr ⟨c, child, (ih c ((collects.down n).subset child)).mpr ⟨m, below, own⟩⟩

theorem memKept {wanted : Node t → Prop} [DecidablePred wanted] {part : Node t → List (Node t)}
    (collects : Collects leads (fun n => if wanted n then [n] else []) part) {n m : Node t} :
    m ∈ part n ↔ Relation.ReflTransGen (fun p c => c ∈ leads p) n m ∧ wanted m := by
  rw [collects.memPart]
  constructor
  · intro found
    obtain ⟨k, reached, own⟩ := found
    obtain ⟨kept, single⟩ := List.mem_ite_nil_right.mp own
    have same : m = k := List.mem_singleton.mp single
    exact same ▸ ⟨reached, kept⟩
  · intro found
    exact ⟨m, found.1, List.mem_ite_nil_right.mpr ⟨found.2, List.mem_singleton_self m⟩⟩

theorem ascending {yields part : Node t → List (Node t)} (collects : Collects leads yields part)
    (own : ∀ n, (yields n).Sublist [n]) (n : Node t) : (part n).Pairwise (· < ·) := by
  have below : ∀ n, ∀ m ∈ part n, n.Within m := by
    intro n m mem
    obtain ⟨k, reached, yielded⟩ := collects.memPart.mp mem
    have same : m = k := List.mem_singleton.mp ((own k).subset yielded)
    exact same ▸ within collects.down reached
  induction n using Node.fromChildren with
  | step n ih =>
    have child : ∀ c ∈ leads n, c ∈ n.children := fun c mem => (collects.down n).subset mem
    rw [collects.parts n]
    refine List.pairwise_append.mpr ⟨?_, ?_, ?_⟩
    · exact (List.pairwise_singleton ..).sublist (own n)
    · exact Node.walkAscending ((Node.childrenAscending n).sublist (collects.down n)) child
        (fun c _ => below c) fun c mem => ih c (child c mem)
    · intro first mem m inside
      obtain ⟨c, listed, further⟩ := List.mem_flatMap.mp inside
      have same : first = n := List.mem_singleton.mp ((own n).subset mem)
      have less := Node.childrenFollow (child c listed)
      exact same ▸ Fin.lt_def.mpr (Nat.lt_of_lt_of_le less (Node.withinLe (below c m further)))

end Collects

end SyntaxAudit
