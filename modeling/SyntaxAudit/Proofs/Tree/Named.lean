import SyntaxAudit.Proofs.Tree.Innermost

/-! What can be got to from a node by named children alone. Two walks keep to them: the one to the named
descendants of a node, which enters all of them, and the one to the innermost accepted nodes, which
stops above a node that is not accepted. -/
namespace SyntaxAudit.Node

variable {t : Tree} {accepts : String → Bool}

def NamedWithin (n m : Node t) : Prop :=
  Relation.ReflTransGen (fun p c => c ∈ p.namedChildren) n m

theorem acceptedAll (n : Node t) : n.acceptedChildren (fun _ => true) = n.namedChildren := by
  unfold acceptedChildren
  exact List.filter_true _

theorem namedWithinIff {n m : Node t} :
    NamedWithin n m ↔
      Within n m ∧ ∀ p, p ≠ n → Within n p → Within p m → p.named = true := by
  have same : NamedWithin n m ↔ Reaches (fun _ => true) n m := by
    simp only [NamedWithin, Reaches, acceptedAll]
  rw [same]
  constructor
  · intro reached
    have way := openOfReaches rfl reached
    exact ⟨reachesWithin reached, fun p apart above below =>
      (way p above below).2.resolve_left apart⟩
  · intro named
    refine (reachesOfOpen named.1 fun p above below => ⟨rfl, ?_⟩).2
    by_cases first : p = n
    · exact .inl first
    · exact .inr (named.2 p first above below)

theorem namedDescendantsEq (n : Node t) :
    n.namedDescendants = n.namedChildren.flatMap fun c => c :: c.namedDescendants := by
  rw [namedDescendants]
  rw [List.flatMap_subtype (g := fun c => c :: c.namedDescendants) fun _ _ => rfl,
    List.unattach_attach]

theorem namedCollects :
    Collects (t := t) namedChildren (fun n => [n]) fun n => n :: n.namedDescendants := by
  refine ⟨fun n => List.filter_sublist, fun n => ?_⟩
  rw [namedDescendantsEq]
  rfl

theorem namedDescendantsAscending (n : Node t) : (n :: n.namedDescendants).Pairwise (· < ·) :=
  namedCollects.ascending (fun _ => .refl _) n

theorem memNamedDescendants {n m : Node t} :
    m ∈ n.namedDescendants ↔ m ≠ n ∧ NamedWithin n m := by
  have reached : m ∈ n :: n.namedDescendants ↔ NamedWithin n m := by
    rw [namedCollects.memPart]
    simp only [List.mem_singleton, exists_eq_right']
    rfl
  have after : m ∈ n.namedDescendants → m ≠ n := by
    intro mem
    have less := (List.pairwise_cons.mp (namedDescendantsAscending n)).1 m mem
    exact (ne_of_lt less).symm
  rw [← reached, List.mem_cons]
  constructor
  · intro mem
    exact ⟨after mem, .inr mem⟩
  · intro mem
    exact mem.2.resolve_left mem.1

theorem namedDescendantsEnds (n : Node t) :
    Walk.Ends namedChildren (fun m => [m]) ⟨n.namedChildren.reverse, []⟩ n.namedDescendants := by
  have ends := Walk.endsInOutcome namedCollects ⟨n.namedChildren.reverse, []⟩
  have all : Walk.outcome (fun n => n :: n.namedDescendants) ⟨n.namedChildren.reverse, []⟩ =
      n.namedDescendants := by
    unfold Walk.outcome
    rw [List.reverse_reverse, namedDescendantsEq n]
    rfl
  exact all ▸ ends

theorem namedDescendantsPreorder :
    (∀ source rows exceptions, Contiguous rows →
      ∃ t, Tree.ofRows? source rows exceptions = some t ∧ t.rows = rows) ∧
    ∀ (t : Tree) (n : Node t),
      Walk.Ends namedChildren (fun m => [m]) ⟨n.namedChildren.reverse, []⟩ n.namedDescendants ∧
      n.namedDescendants.Pairwise (· < ·) ∧
      ∀ m, m ∈ n.namedDescendants ↔
        m ≠ n ∧ Within n m ∧ ∀ p, p ≠ n → Within n p → Within p m → p.named = true := by
  refine ⟨fun source rows exceptions contiguous => ?_, fun t n => ?_⟩
  · have preorder := preorderIff.mpr contiguous
    exact ⟨⟨source, rows, exceptions, preorder⟩, dif_pos preorder, rfl⟩
  · refine ⟨namedDescendantsEnds n, (List.pairwise_cons.mp (namedDescendantsAscending n)).2,
      fun m => ?_⟩
    rw [memNamedDescendants, namedWithinIff]

def bracketed : Tree :=
  let row (parent : Option Nat) (kind : String) (named : Bool) (start stop : Nat) : Row :=
    ⟨parent, kind, named, false, false, false, start, stop, none⟩
  ⟨"f(x)", #[row none "call" true 0 4, row (some 0) "identifier" true 0 1,
    row (some 0) "(" false 1 4, row (some 2) "identifier" true 2 3, row (some 0) "end" true 4 4],
    [], by decide⟩

theorem namedDescendantsBracketed :
    Contiguous bracketed.rows ∧
    (∃ t, Tree.ofRows? "f(x)" bracketed.rows [] = some t ∧ t.rows = bracketed.rows) ∧
    bracketed.root.namedDescendants.map Fin.val = [1, 4] ∧
    Walk.Ends namedChildren (fun m => [m]) ⟨bracketed.root.namedChildren.reverse, []⟩
      bracketed.root.namedDescendants := by
  have contiguous : Contiguous bracketed.rows := contiguousRows bracketed
  obtain ⟨made, walked⟩ := namedDescendantsPreorder
  exact ⟨contiguous, made _ _ _ contiguous, by decide +kernel, (walked bracketed _).1⟩

theorem reachesOfChain {root m : Node t} (chain : NamedWithin root m)
    (all : ∀ p, NamedWithin root p → NamedWithin p m → accepts p.text = true) :
    accepts root.text = true ∧ Reaches accepts root m := by
  induction chain with
  | refl => exact ⟨all root .refl .refl, .refl⟩
  | tail above child ih =>
    obtain ⟨start, reached⟩ := ih fun p inside below => all p inside (below.tail child)
    have accepted := all _ (above.tail child) .refl
    exact ⟨start, reached.tail (List.mem_filter.mpr ⟨child, accepted⟩)⟩

theorem chainOfReaches {root m : Node t} (reached : Reaches accepts root m) :
    NamedWithin root m :=
  Relation.ReflTransGen.mono (fun _ _ child => (List.mem_filter.mp child).1) _ _ reached

theorem acceptsNone {m : Node t} :
    m.acceptedChildren accepts = [] ↔ ∀ c ∈ m.namedChildren, accepts c.text = false := by
  unfold acceptedChildren
  rw [List.filter_eq_nil_iff]
  simp only [Bool.not_eq_true]

theorem memInnermostChain {root m : Node t} :
    m ∈ innermost accepts root ↔
      NamedWithin root m ∧ (∀ p, NamedWithin root p → NamedWithin p m → accepts p.text = true) ∧
        ∀ c ∈ m.namedChildren, accepts c.text = false := by
  rw [memInnermost, acceptsNone]
  constructor
  · intro found
    obtain ⟨start, reached, leaf⟩ := found
    have way := openOfReaches start reached
    exact ⟨chainOfReaches reached, fun p above below =>
      (way p (namedWithinIff.mp above).1 (namedWithinIff.mp below).1).1, leaf⟩
  · intro found
    obtain ⟨chain, all, leaf⟩ := found
    obtain ⟨start, reached⟩ := reachesOfChain chain all
    exact ⟨start, reached, leaf⟩

theorem innermostApart {root m k : Node t} (first : m ∈ innermost accepts root)
    (second : k ∈ innermost accepts root) (inside : Within m k) : m = k := by
  obtain ⟨start, reached, leaf⟩ := memInnermost.mp first
  obtain ⟨_, further, _⟩ := memInnermost.mp second
  by_contra apart
  obtain ⟨c, child, below⟩ := withinChild inside fun same => apart same.symm
  have above := reachesWithin reached
  obtain ⟨accepted, known⟩ := openOfReaches start further c (above.tail child) below
  have listed : c ∈ m.acceptedChildren accepts :=
    memAccepted.mpr ⟨child, known.resolve_left (belowNotRoot above child), accepted⟩
  rw [leaf] at listed
  cases listed

theorem innermostFromNonempty (accepts : String → Bool) (n : Node t) :
    innermostFrom accepts n ≠ [] := by
  induction n using fromChildren with
  | step n ih =>
    rw [innermostFromEq]
    split
    · exact List.cons_ne_nil _ _
    · rename_i further
      obtain ⟨c, child⟩ := List.exists_mem_of_ne_nil _ further
      intro empty
      exact ih c (memAccepted.mp child).1 (List.flatMap_eq_nil_iff.mp empty c child)

theorem innermostNonempty {root : Node t} :
    innermost accepts root ≠ [] ↔ accepts root.text = true := by
  unfold innermost
  split
  · rename_i accepted
    exact iff_of_true (innermostFromNonempty accepts root) accepted
  · rename_i refused
    exact iff_of_false (fun found => found rfl) refused

theorem innermostByChains (accepts : String → Bool) (root : Node t) :
    Walk.Ends (acceptedChildren accepts)
      (fun n => if n.acceptedChildren accepts = [] then [n] else [])
      ⟨if accepts root.text then [root] else [], []⟩ (innermost accepts root) ∧
    (∀ m, m ∈ innermost accepts root ↔
      NamedWithin root m ∧ (∀ p, NamedWithin root p → NamedWithin p m → accepts p.text = true) ∧
        ∀ c ∈ m.namedChildren, accepts c.text = false) ∧
    (innermost accepts root).Pairwise (· < ·) ∧
    (∀ m ∈ innermost accepts root, ∀ k ∈ innermost accepts root, Within m k → m = k) ∧
    (innermost accepts root ≠ [] ↔ accepts root.text = true) := by
  have ends := Walk.endsInOutcome (innermostCollects accepts)
    ⟨if accepts root.text then [root] else [], []⟩
  have all : Walk.outcome (innermostFrom accepts)
      ⟨if accepts root.text then [root] else [], []⟩ = innermost accepts root := by
    unfold Walk.outcome innermost
    split
    · exact List.append_nil _
    · rfl
  rw [all] at ends
  exact ⟨ends, fun m => memInnermostChain, innermostAscending accepts root,
    fun m first k second => innermostApart first second, innermostNonempty⟩

/- The letter stands below the bare token, which the walk does not enter. -/
theorem innermostByChainsBracketed :
    let accepts : String → Bool := fun text => text.toList.contains 'x'
    bracketed.root.children.map Fin.val = [1, 2, 4] ∧
    bracketed.root.namedChildren.map Fin.val = [1, 4] ∧
    innermost accepts bracketed.root = [bracketed.root] ∧
    (innermost (fun _ => true) bracketed.root).map Fin.val = [1, 4] ∧
    Walk.Ends (acceptedChildren accepts)
      (fun n => if n.acceptedChildren accepts = [] then [n] else []) ⟨[bracketed.root], []⟩
      (innermost accepts bracketed.root) := by
  intro accepts
  have start : (if accepts bracketed.root.text then [bracketed.root] else []) = [bracketed.root] := by
    decide +kernel
  have walked := (innermostByChains accepts bracketed.root).1
  rw [start] at walked
  exact ⟨by decide, by decide, by decide +kernel, by decide +kernel, walked⟩

end SyntaxAudit.Node
