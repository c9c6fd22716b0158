import Mathlib.Data.Fintype.Order
import Mathlib.Data.List.FinRange
import Mathlib.Logic.Relation
import SyntaxAudit.Tree

/-! Subtrees are ranges of rows. All rows from a node to any node below it are below it too, so the
subtrees of two children of one node do not overlap, and a walk that takes children in their order
comes out in the order of the rows. Nothing else is asked of the rows of a tree: with one root, parents
before their children and subtrees that are ranges, rows are in pre-order. -/
namespace SyntaxAudit

namespace Node

variable {t : Tree}

def Within (n m : Node t) : Prop := Relation.ReflTransGen (fun p c => c ∈ p.children) n m

theorem memChildren {n c : Node t} : c ∈ n.children ↔ c.row.parent = some n.val := by
  simp [children, Tree.nodes]

theorem parentUnique {p q c : Node t} (first : c ∈ p.children) (second : c ∈ q.children) :
    p = q := by
  have same := (memChildren.mp first).symm.trans (memChildren.mp second)
  exact Fin.ext (Option.some.inj same)

theorem hung (n : Node t) : hangs t.rows n.val n.row := t.preorder.2 n.val n.isLt

theorem parentThere {c : Node t} {p : Nat} (parent : c.row.parent = some p) :
    ∃ n : Node t, n.val = p ∧ c ∈ n.children := by
  have rule := hung c
  simp only [hangs, parent] at rule
  have bound : p < t.size := Nat.lt_trans rule.1 c.isLt
  exact ⟨⟨p, bound⟩, rfl, memChildren.mpr parent⟩

theorem withinLe {n m : Node t} (inside : Within n m) : n.val ≤ m.val := by
  induction inside with
  | refl => exact Nat.le_refl _
  | tail _ child ih =>
    have := childrenFollow child
    omega

theorem withinAntisymm {n m : Node t} (down : Within n m) (up : Within m n) : n = m := by
  have := withinLe down
  have := withinLe up
  exact Fin.ext (by omega)

theorem belowNotRoot {root p c : Node t} (inside : Within root p) (child : c ∈ p.children) :
    c ≠ root := by
  have := withinLe inside
  have := childrenFollow child
  intro same
  rw [same] at this
  omega

theorem chainWithin {fuel p : Nat} {n : Node t} (mem : p ∈ chain t.rows fuel n.val) :
    ∃ m : Node t, m.val = p ∧ Within m n := by
  induction fuel generalizing n with
  | zero => cases mem
  | succ fuel ih =>
    have row : t.rows[n.val]? = some n.row := Array.getElem?_eq_getElem n.isLt
    simp only [chain, row] at mem
    cases parent : n.row.parent with
    | none =>
      simp only [parent, List.mem_singleton] at mem
      exact ⟨n, mem.symm, .refl⟩
    | some q =>
      simp only [parent] at mem
      rcases List.mem_cons.mp mem with same | above
      · exact ⟨n, same.symm, .refl⟩
      · obtain ⟨above', value, child⟩ := parentThere parent
        rw [← value] at above
        obtain ⟨m, same, inside⟩ := ih above
        exact ⟨m, same, inside.tail child⟩

theorem previousWithin {p c : Node t} (child : c ∈ p.children) :
    ∃ b : Node t, b.val + 1 = c.val ∧ Within p b := by
  have rule := hung c
  simp only [hangs, memChildren.mp child] at rule
  obtain ⟨less, mem⟩ := rule
  have bound : c.val - 1 < t.size := Nat.lt_of_le_of_lt (Nat.sub_le ..) c.isLt
  obtain ⟨m, same, inside⟩ := chainWithin (n := ⟨c.val - 1, bound⟩) mem
  have equal : m = p := Fin.ext same
  exact ⟨⟨c.val - 1, bound⟩, Nat.sub_add_cancel (by omega), equal ▸ inside⟩

theorem withinBefore {n m : Node t} (inside : Within n m) (less : n.val < m.val) :
    ∃ b : Node t, b.val + 1 = m.val ∧ Within n b := by
  cases inside with
  | refl => omega
  | tail above child =>
    obtain ⟨b, next, below⟩ := previousWithin child
    exact ⟨b, next, above.trans below⟩

theorem withinBetween {n m k : Node t} (inside : Within n m) (low : n.val ≤ k.val)
    (high : k.val ≤ m.val) : Within n k := by
  -- From the end of the range back to the row in question, one row at a time.
  obtain ⟨gap, length⟩ : ∃ gap, k.val + gap = m.val := ⟨m.val - k.val, by omega⟩
  induction gap generalizing m with
  | zero =>
    have same : k = m := Fin.ext (by omega)
    exact same ▸ inside
  | succ gap ih =>
    obtain ⟨b, next, below⟩ := withinBefore inside (by omega)
    exact ih below (by omega) (by omega)

theorem subtreesApart {p c d m : Node t} (first : c ∈ p.children) (second : d ∈ p.children)
    (less : c.val < d.val) (inside : Within c m) : m.val < d.val := by
  by_contra beyond
  have overlap : Within c d := withinBetween inside (by omega) (by omega)
  cases overlap with
  | refl => omega
  | tail above child =>
    -- The parent of both would be below the first of them.
    rw [parentUnique child second] at above
    have := withinLe above
    have := childrenFollow first
    omega

theorem fromChildren {P : Node t → Prop} (step : ∀ n, (∀ c ∈ n.children, P c) → P n) (n : Node t) :
    P n := by
  induction n using WellFoundedGT.induction with
  | ind n ih => exact step n fun c child => ih c (childrenFollow child)

theorem withinChild {n m : Node t} (inside : Within n m) (apart : m ≠ n) :
    ∃ c ∈ n.children, Within c m := by
  rcases Relation.ReflTransGen.cases_head inside with same | ⟨c, child, below⟩
  · exact absurd same.symm apart
  · exact ⟨c, child, below⟩

theorem rootWithin (n : Node t) : Within t.root n := by
  induction n using WellFoundedLT.induction with
  | ind n ih =>
    cases parent : n.row.parent with
    | none =>
      have rule := hung n
      simp only [hangs, parent] at rule
      have first : t.root = n := Fin.ext rule.symm
      exact first ▸ .refl
    | some p =>
      obtain ⟨above, _, child⟩ := parentThere parent
      exact (ih above (childrenFollow child)).tail child

theorem childrenAscending (n : Node t) : n.children.Pairwise (· < ·) :=
  (List.pairwise_lt_finRange t.size).filter _

theorem walkAscending {p : Node t} {part : Node t → List (Node t)} {xs : List (Node t)}
    (order : xs.Pairwise (· < ·)) (children : ∀ c ∈ xs, c ∈ p.children)
    (below : ∀ c ∈ xs, ∀ m ∈ part c, Within c m)
    (parts : ∀ c ∈ xs, (part c).Pairwise (· < ·)) : (xs.flatMap part).Pairwise (· < ·) := by
  refine List.pairwise_flatMap.mpr ⟨parts, ?_⟩
  refine order.imp_of_mem fun first second less m mem k inside => ?_
  have before := subtreesApart (children _ first) (children _ second) less (below _ first m mem)
  exact Fin.lt_def.mpr (Nat.lt_of_lt_of_le before (withinLe (below _ second k inside)))

end Node

def parentAt (rows : Array Row) (i : Nat) : Option Nat := rows[i]?.bind Row.parent

def Under (rows : Array Row) (i k : Nat) : Prop :=
  Relation.ReflTransGen (fun p c => parentAt rows c = some p) i k

structure Contiguous (rows : Array Row) : Prop where
  inhabited : 0 < rows.size
  root : ∀ i, i < rows.size → parentAt rows i = none → i = 0
  before : ∀ i p, parentAt rows i = some p → p < i
  ranges : ∀ i j k, Under rows i k → i ≤ j → j ≤ k → Under rows i j

variable {t : Tree} {rows : Array Row}

theorem parentAtRow {i : Nat} (bound : i < rows.size) : parentAt rows i = rows[i].parent := by
  unfold parentAt
  rw [Array.getElem?_eq_getElem bound]
  rfl

theorem parentInside {i p : Nat} (parent : parentAt rows i = some p) : i < rows.size := by
  obtain ⟨row, found, _⟩ := Option.bind_eq_some_iff.mp parent
  exact (Array.getElem?_eq_some_iff.mp found).1

namespace Node

theorem withinOfUnder {i : Nat} {m : Node t} (under : Under t.rows i m.val) :
    ∃ n : Node t, n.val = i ∧ Within n m := by
  induction under using Relation.ReflTransGen.head_induction_on with
  | refl => exact ⟨m, rfl, .refl⟩
  | head step _ ih =>
    obtain ⟨c, same, inside⟩ := ih
    rw [← same, parentAtRow c.isLt] at step
    obtain ⟨n, value, child⟩ := parentThere step
    exact ⟨n, value, inside.head child⟩

theorem underOfWithin {n m : Node t} (inside : Within n m) : Under t.rows n.val m.val := by
  induction inside with
  | refl => exact .refl
  | @tail p c _ child ih =>
    have parent : parentAt t.rows c.val = some p.val :=
      (parentAtRow c.isLt).trans (memChildren.mp child)
    exact ih.tail parent

end Node

theorem contiguousRows (t : Tree) : Contiguous t.rows := by
  refine ⟨t.preorder.1, fun i bound none => ?_, fun i p parent => ?_, fun i j k under low high => ?_⟩
  · have rule := t.preorder.2 i bound
    rw [parentAtRow bound] at none
    simpa only [hangs, none] using rule
  · have bound := parentInside parent
    have rule := t.preorder.2 i bound
    rw [parentAtRow bound] at parent
    simp only [hangs, parent] at rule
    exact rule.1
  · rcases Relation.ReflTransGen.cases_tail under with same | ⟨_, _, parent⟩
    · have equal : i = j := by omega
      exact equal ▸ .refl
    · have bound : k < t.size := parentInside parent
      obtain ⟨n, first, inside⟩ := Node.withinOfUnder (m := ⟨k, bound⟩) under
      have between := Node.withinBetween (k := ⟨j, Nat.lt_of_le_of_lt high bound⟩) inside
        (first ▸ low) high
      exact first ▸ Node.underOfWithin between

theorem chainOfUnder (before : ∀ i p, parentAt rows i = some p → p < i) {p j fuel : Nat}
    (under : Under rows p j) (there : j < rows.size) (enough : j < fuel) :
    p ∈ chain rows fuel j := by
  induction under generalizing fuel with
  | refl =>
    obtain ⟨fuel, rfl⟩ : ∃ n, fuel = n + 1 := ⟨fuel - 1, by omega⟩
    simp only [chain, Array.getElem?_eq_getElem there]
    split <;> simp
  | tail above parent ih =>
    obtain ⟨fuel, rfl⟩ : ∃ n, fuel = n + 1 := ⟨fuel - 1, by omega⟩
    have less := before _ _ parent
    rw [parentAtRow there] at parent
    simp only [chain, Array.getElem?_eq_getElem there, parent]
    exact List.mem_cons_of_mem _ (ih (by omega) (by omega))

theorem preorderIff : Preorder rows ↔ Contiguous rows := by
  constructor
  · intro preorder
    exact contiguousRows ⟨"", rows, [], preorder⟩
  · intro contiguous
    refine ⟨contiguous.inhabited, fun i bound => ?_⟩
    unfold hangs
    rw [← parentAtRow bound]
    cases parent : parentAt rows i with
    | none => exact contiguous.root i bound parent
    | some p =>
      have less := contiguous.before i p parent
      have previous := contiguous.ranges p (i - 1) i (.single parent) (by omega) (by omega)
      exact ⟨less, chainOfUnder contiguous.before previous (by omega) (by omega)⟩

end SyntaxAudit
