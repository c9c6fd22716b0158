import SyntaxAudit.Proofs.Tree.Stack

/-! The innermost nodes with accepted texts, and those that the walk finds. The walk goes from a node
to its accepted named children and never enters a node that is not accepted. So it finds the innermost
nodes exactly if no accepted named node hangs on one that is not accepted. A text that has to match as
a whole shows the difference: it may be that of a node and not that of any node above. -/
namespace SyntaxAudit.Node

variable {t : Tree} {accepts : String → Bool}

structure IsInnermost (accepts : String → Bool) (root m : Node t) : Prop where
  inside : Within root m
  named : m.named = true
  accepted : accepts m.text = true
  last : ∀ d, Within m d → d ≠ m → d.named = true → accepts d.text = false

def Reaches (accepts : String → Bool) (n m : Node t) : Prop :=
  Relation.ReflTransGen (fun p c => c ∈ p.acceptedChildren accepts) n m

theorem memAccepted {n c : Node t} :
    c ∈ n.acceptedChildren accepts ↔ c ∈ n.children ∧ c.named = true ∧ accepts c.text = true := by
  simp only [acceptedChildren, namedChildren, List.mem_filter, and_assoc]

theorem reachesWithin {n m : Node t} (reached : Reaches accepts n m) : Within n m := by
  induction reached with
  | refl => exact .refl
  | tail _ child ih => exact ih.tail (memAccepted.mp child).1

theorem innermostFromEq (accepts : String → Bool) (n : Node t) :
    innermostFrom accepts n =
      if n.acceptedChildren accepts = [] then [n]
      else (n.acceptedChildren accepts).flatMap (innermostFrom accepts) := by
  rw [innermostFrom]
  split
  · rfl
  · rw [List.flatMap_subtype (g := innermostFrom accepts) fun _ _ => rfl, List.unattach_attach]

theorem innermostCollects (accepts : String → Bool) :
    Collects (acceptedChildren accepts)
      (fun n : Node t => if n.acceptedChildren accepts = [] then [n] else [])
      (innermostFrom accepts) := by
  refine ⟨fun n => List.filter_sublist.trans List.filter_sublist, fun n => ?_⟩
  rw [innermostFromEq]
  split
  · rename_i leaf
    rw [leaf]
    rfl
  · rfl

theorem memInnermostFrom {n m : Node t} :
    m ∈ innermostFrom accepts n ↔ Reaches accepts n m ∧ m.acceptedChildren accepts = [] :=
  (innermostCollects accepts).memKept

theorem memInnermost {root m : Node t} :
    m ∈ innermost accepts root ↔
      accepts root.text = true ∧ Reaches accepts root m ∧ m.acceptedChildren accepts = [] := by
  unfold innermost
  split
  · rename_i accepted
    rw [memInnermostFrom]
    exact (and_iff_right accepted).symm
  · rename_i refused
    exact iff_of_false List.not_mem_nil fun found => refused found.1

theorem innermostFromAscending (accepts : String → Bool) (n : Node t) :
    (innermostFrom accepts n).Pairwise (· < ·) :=
  (innermostCollects accepts).ascending (fun n => Collects.partSublist _ [n]) n

theorem innermostAscending (accepts : String → Bool) (root : Node t) :
    (innermost accepts root).Pairwise (· < ·) := by
  unfold innermost
  split
  · exact innermostFromAscending accepts root
  · exact .nil

theorem reachedAccepted {root m : Node t} (reached : Reaches accepts root m) :
    m = root ∨ m.named = true ∧ accepts m.text = true := by
  cases reached with
  | refl => exact .inl rfl
  | tail _ child => exact .inr (memAccepted.mp child).2

theorem reachesThrough {root p m : Node t} (reached : Reaches accepts root m)
    (inside : Within root p) (below : Within p m) : Reaches accepts root p := by
  induction reached with
  | refl => exact withinAntisymm inside below ▸ .refl
  | tail before step ih =>
    rcases Relation.ReflTransGen.cases_tail below with same | ⟨q, above, child⟩
    · exact same ▸ before.tail step
    · rw [parentUnique child (memAccepted.mp step).1] at above
      exact ih above

def Open (accepts : String → Bool) (root m : Node t) : Prop :=
  ∀ p, Within root p → Within p m → accepts p.text = true ∧ (p = root ∨ p.named = true)

theorem openOfReaches {root m : Node t} (start : accepts root.text = true)
    (reached : Reaches accepts root m) : Open accepts root m := by
  intro p inside below
  rcases reachedAccepted (reachesThrough reached inside below) with same | ⟨named, accepted⟩
  · exact ⟨same ▸ start, .inl same⟩
  · exact ⟨accepted, .inr named⟩

theorem reachesOfOpen {root m : Node t} (inside : Within root m) (way : Open accepts root m) :
    accepts root.text = true ∧ Reaches accepts root m := by
  induction inside with
  | refl => exact ⟨(way root .refl .refl).1, .refl⟩
  | tail above child ih =>
    obtain ⟨start, reached⟩ := ih fun p inside below => way p inside (below.tail child)
    obtain ⟨accepted, known⟩ := way _ (above.tail child) .refl
    have named := known.resolve_left (belowNotRoot above child)
    exact ⟨start, reached.tail (memAccepted.mpr ⟨child, named, accepted⟩)⟩

structure Unbroken (accepts : String → Bool) (root : Node t) : Prop where
  upward : ∀ p c, Within root p → c ∈ p.children → c.named = true → accepts c.text = true →
    accepts p.text = true ∧ (p = root ∨ p.named = true)
  start : accepts root.text = true → root.named = true ∨ root.acceptedChildren accepts ≠ []

theorem innermostLeaf {root m : Node t} (last : IsInnermost accepts root m) :
    m.acceptedChildren accepts = [] := by
  refine List.eq_nil_iff_forall_not_mem.mpr fun c mem => ?_
  obtain ⟨child, named, accepted⟩ := memAccepted.mp mem
  have apart : c ≠ m := belowNotRoot .refl child
  rw [last.last c (.single child) apart named] at accepted
  contradiction

theorem unbrokenReaches {root m : Node t} (unbroken : Unbroken accepts root)
    (inside : Within root m) (named : m.named = true) (accepted : accepts m.text = true) :
    accepts root.text = true ∧ Reaches accepts root m := by
  induction inside with
  | refl => exact ⟨accepted, .refl⟩
  | tail above child ih =>
    obtain ⟨held, first | known⟩ := unbroken.upward _ _ above child named accepted
    · subst first
      exact ⟨held, .tail .refl (memAccepted.mpr ⟨child, named, accepted⟩)⟩
    · obtain ⟨start, reached⟩ := ih known held
      exact ⟨start, reached.tail (memAccepted.mpr ⟨child, named, accepted⟩)⟩

theorem innermostBelow {n : Node t} (named : n.named = true) (accepted : accepts n.text = true) :
    ∃ m, IsInnermost accepts n m := by
  induction n using WellFoundedGT.induction with
  | ind n ih =>
    by_cases deeper : ∃ d, Within n d ∧ d ≠ n ∧ d.named = true ∧ accepts d.text = true
    · -- The deeper node need not be a child, so the induction is on the numbers and not on the tree.
      obtain ⟨d, inside, apart, known, held⟩ := deeper
      have greater : n < d := by
        refine Fin.lt_def.mpr (Nat.lt_of_le_of_ne (withinLe inside) fun same => ?_)
        exact apart (Fin.ext same.symm)
      obtain ⟨m, below⟩ := ih d greater known held
      exact ⟨m, inside.trans below.inside, below.named, below.accepted, below.last⟩
    · refine ⟨n, .refl, named, accepted, fun d inside apart known => ?_⟩
      cases held : accepts d.text with
      | false => rfl
      | true => exact absurd ⟨d, inside, apart, known, held⟩ deeper

theorem unbrokenOfExact {root : Node t}
    (same : ∀ m, m ∈ innermost accepts root ↔ IsInnermost accepts root m) :
    Unbroken accepts root := by
  refine ⟨fun p c above child named accepted => ?_, fun accepted => ?_⟩
  · obtain ⟨m, last⟩ := innermostBelow named accepted
    have below : Within p m := last.inside.head child
    have found := (same m).mpr ⟨above.trans below, last.named, last.accepted, last.last⟩
    obtain ⟨start, reached, _⟩ := memInnermost.mp found
    exact openOfReaches start reached p above below
  · by_cases leaf : root.acceptedChildren accepts = []
    · exact .inl ((same root).mp (memInnermost.mpr ⟨accepted, .refl, leaf⟩)).named
    · exact .inr leaf

theorem exactOfUnbroken {root : Node t} (unbroken : Unbroken accepts root) (m : Node t) :
    m ∈ innermost accepts root ↔ IsInnermost accepts root m := by
  rw [memInnermost]
  constructor
  · intro found
    obtain ⟨start, reached, leaf⟩ := found
    have inside := reachesWithin reached
    have own : m.named = true ∧ accepts m.text = true := by
      rcases reachedAccepted reached with same | own
      · subst same
        exact ⟨(unbroken.start start).resolve_right fun more => more leaf, start⟩
      · exact own
    refine ⟨inside, own.1, own.2, fun d below apart named => ?_⟩
    cases accepted : accepts d.text with
    | false => rfl
    | true =>
      -- The walk would get to `d`, and so first to a child of `m`.
      obtain ⟨c, child, further⟩ := withinChild below apart
      obtain ⟨_, deep⟩ := unbrokenReaches unbroken (inside.trans below) named accepted
      obtain ⟨held, known⟩ := openOfReaches start deep c (inside.tail child) further
      have listed : c ∈ m.acceptedChildren accepts :=
        memAccepted.mpr ⟨child, known.resolve_left (belowNotRoot inside child), held⟩
      rw [leaf] at listed
      cases listed
  · intro last
    obtain ⟨start, reached⟩ := unbrokenReaches unbroken last.inside last.named last.accepted
    exact ⟨start, reached, innermostLeaf last⟩

/- One word on a line: the module has the end of the line, the statement and the identifier have not. -/
def oneWord : Tree :=
  let row (parent : Option Nat) (kind : String) (stop : Nat) : Row :=
    ⟨parent, kind, true, false, false, false, 0, stop, none⟩
  ⟨"x\n", #[row none "module" 2, row (some 0) "expression_statement" 1,
    row (some 1) "identifier" 1], [], by decide⟩

def word : Node oneWord := ⟨2, by decide⟩

theorem wordInnermost (accepted : accepts word.text = true) :
    IsInnermost accepts oneWord.root word := by
  let statement : Node oneWord := ⟨1, by decide⟩
  have first : statement ∈ oneWord.root.children := by decide
  refine ⟨.tail (.single first) (by decide), rfl, accepted, fun d below apart => ?_⟩
  have beyond : 2 ≤ d.val := withinLe below
  have bound : d.val < 3 := d.isLt
  exact absurd (Fin.ext (show d.val = 2 by omega)) apart

theorem innermostFound (accepts : String → Bool) (root : Node t) :
    (innermost accepts root).Pairwise (· < ·) ∧
    (∀ m, IsInnermost accepts root m → (m ∈ innermost accepts root ↔ Open accepts root m)) ∧
    ((∀ m, m ∈ innermost accepts root ↔ IsInnermost accepts root m) ↔ Unbroken accepts root) := by
  refine ⟨innermostAscending accepts root, fun m last => ?_, unbrokenOfExact, exactOfUnbroken⟩
  rw [memInnermost]
  constructor
  · intro found
    exact openOfReaches found.1 found.2.1
  · intro way
    obtain ⟨start, reached⟩ := reachesOfOpen last.inside way
    exact ⟨start, reached, innermostLeaf last⟩

theorem innermostFoundAnywhere :
    let accepts : String → Bool := fun text => text.toList.contains 'x'
    Unbroken accepts oneWord.root ∧ word ∈ innermost accepts oneWord.root := by
  intro accepts
  have all : ∀ n : Node oneWord, accepts n.text = true ∧ n.named = true := by decide +kernel
  have unbroken : Unbroken accepts oneWord.root :=
    ⟨fun p _ _ _ _ _ => ⟨(all p).1, .inr (all p).2⟩, fun _ => .inl rfl⟩
  have exactly := (innermostFound accepts oneWord.root).2.2.mpr unbroken
  exact ⟨unbroken, (exactly word).mpr (wordInnermost (all word).1)⟩

theorem innermostMissed :
    let accepts : String → Bool := fun text => text == "x"
    IsInnermost accepts oneWord.root word ∧ innermost accepts oneWord.root = [] := by
  intro accepts
  exact ⟨wordInnermost (by decide +kernel), by decide +kernel⟩

end SyntaxAudit.Node
