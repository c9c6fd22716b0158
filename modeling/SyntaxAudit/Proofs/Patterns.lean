import Mathlib.Data.List.Flatten
import Mathlib.Data.List.Perm.Basic
import SyntaxAudit.Proofs.Resolution

/-! The patterns of a query divide what it finds. Where the captures are those of the matches, one match
after the other, a node is found by a pattern as often as the pattern's matches have it. So what one
pattern finds stands in the same order among all that is found, and the patterns together find all of
it. -/
namespace SyntaxAudit.Query

variable {N : Type}

theorem selectJoined (found : List (Match N)) (name : String) :
    selectCaptures (found.flatMap Match.captures) name =
      found.flatMap fun m => selectCaptures m.captures name := by
  simp only [selectCaptures, List.filter_flatMap, List.map_flatMap]

theorem ownPattern {count : Nat} {m : Match N} (there : m.pattern < count) :
    ((List.range count).flatMap fun k => if m.pattern = k then [m] else []) = [m] := by
  induction count with
  | zero => omega
  | succ count ih =>
    rw [List.range_succ, List.flatMap_append, List.flatMap_singleton]
    by_cases last : m.pattern = count
    · have others : ((List.range count).flatMap fun k => if m.pattern = k then [m] else []) = [] := by
        apply List.flatMap_eq_nil_iff.mpr
        intro k below
        have less := List.mem_range.mp below
        exact if_neg (by omega)
      rw [others, if_pos last, List.nil_append]
    · rw [ih (by omega), if_neg last, List.append_nil]

theorem sortedByPattern {count : Nat} {found : List (Match N)}
    (there : ∀ m ∈ found, m.pattern < count) :
    ((List.range count).flatMap fun k => found.filter fun m => m.pattern = k).Perm found := by
  induction found with
  | nil => simp
  | cons m rest ih =>
    obtain ⟨first, others⟩ := List.forall_mem_cons.mp there
    have split : ∀ k, ((m :: rest).filter fun m => m.pattern = k) =
        (if m.pattern = k then [m] else []) ++ rest.filter fun m => m.pattern = k := by
      intro k
      by_cases own : m.pattern = k <;> simp [own]
    simp only [split]
    have apart := List.flatMap_append_perm (List.range count)
      (fun k => if m.pattern = k then [m] else []) fun k => rest.filter fun m => m.pattern = k
    rw [ownPattern first] at apart
    exact apart.symm.trans ((ih others).append_left [m])

section Divided
variable {q : Query N} {root : N} {capture : Option String}

theorem resolveJoined (joined : q.findCaptures root = (q.findMatches root).flatMap Match.captures)
    (declared : capture.getD "target" ∈ q.names) :
    q.resolve root capture .all =
      (q.findMatches root).flatMap fun m => selectCaptures m.captures (capture.getD "target") := by
  unfold resolve
  simp only [defaultCapture, searchAll declared, joined, selectJoined]

theorem resolvePattern (there : ∀ m ∈ q.findMatches root, m.pattern < q.patternCount)
    (declared : capture.getD "target" ∈ q.names) (k : Nat) :
    q.resolve root capture (.pattern k) =
      ((q.findMatches root).filter fun m => m.pattern = k).flatMap fun m =>
        selectCaptures m.captures (capture.getD "target") := by
  by_cases known : k < q.patternCount
  · unfold resolve
    simp only [defaultCapture, searchPattern declared known]
    rfl
  · have empty : ((q.findMatches root).filter fun m => m.pattern = k) = [] := by
      apply List.filter_eq_nil_iff.mpr
      intro m mem own
      have bound := there m mem
      have same : m.pattern = k := by simpa using own
      omega
    have skipped : q.search (capture.getD "target") (.pattern k) = .nothing := by
      unfold search
      simp only [if_neg known, ite_self]
    rw [resolveSkipped skipped, empty, List.flatMap_nil]

end Divided

theorem patternsDivide (q : Query N) (root : N)
    (joined : q.findCaptures root = (q.findMatches root).flatMap Match.captures)
    (there : ∀ m ∈ q.findMatches root, m.pattern < q.patternCount) :
    (∀ capture k, (q.resolve root capture (.pattern k)).Sublist (q.resolve root capture .all)) ∧
    (∀ capture, ((List.range q.patternCount).flatMap fun k =>
      q.resolve root capture (.pattern k)).Perm (q.resolve root capture .all)) ∧
    (q.patternCount = 1 →
      q.resolve root none .all = q.resolve root (some "target") (.pattern 0)) := by
  have part : ∀ capture k,
      (q.resolve root capture (.pattern k)).Sublist (q.resolve root capture .all) := by
    intro capture k
    by_cases declared : capture.getD "target" ∈ q.names
    · rw [resolveJoined joined declared, resolvePattern there declared]
      exact List.filter_sublist.flatMap _
    · rw [resolveUndeclared declared]
      exact List.nil_sublist _
  have whole : ∀ capture, ((List.range q.patternCount).flatMap fun k =>
      q.resolve root capture (.pattern k)).Perm (q.resolve root capture .all) := by
    intro capture
    by_cases declared : capture.getD "target" ∈ q.names
    · simp only [resolveJoined joined declared, resolvePattern there declared]
      rw [← List.flatMap_assoc]
      exact (sortedByPattern there).flatMap_right _
    · simp only [resolveUndeclared declared]
      simp
  refine ⟨part, whole, fun single => ?_⟩
  -- A sublist that is as long as the whole list is the whole list.
  have same := whole (some "target")
  rw [single, List.range_one, List.flatMap_singleton] at same
  exact ((part (some "target") 0).eq_of_length same.length_eq).symm

theorem patternsDivideInTurn :
    let query (count : Nat) (found : List (Match Nat)) : Query Nat :=
      ⟨count, ["target", "other"], fun _ => found, fun _ => found.flatMap Match.captures⟩
    let two := query 2 [⟨0, [⟨"target", 1⟩, ⟨"other", 2⟩]⟩, ⟨1, [⟨"target", 3⟩]⟩,
      ⟨0, [⟨"target", 4⟩, ⟨"target", 1⟩]⟩, ⟨1, [⟨"other", 6⟩, ⟨"target", 7⟩]⟩]
    let one := query 1 [⟨0, [⟨"target", 5⟩, ⟨"other", 6⟩]⟩, ⟨0, [⟨"target", 5⟩]⟩]
    two.resolve 0 none .all = [1, 3, 4, 1, 7] ∧
    two.resolve 0 none (.pattern 0) ++ two.resolve 0 none (.pattern 1) = [1, 4, 1, 3, 7] ∧
    (two.resolve 0 none (.pattern 1)).Sublist (two.resolve 0 none .all) ∧
    ((List.range 2).flatMap fun k => two.resolve 0 none (.pattern k)).Perm
      (two.resolve 0 none .all) ∧
    one.resolve 0 none .all = one.resolve 0 (some "target") (.pattern 0) := by
  intro query two one
  obtain ⟨part, whole, _⟩ := patternsDivide two 0 rfl (by decide)
  obtain ⟨_, _, single⟩ := patternsDivide one 0 rfl (by decide)
  exact ⟨by decide, by decide, part none 1, whole none, single rfl⟩

end SyntaxAudit.Query
