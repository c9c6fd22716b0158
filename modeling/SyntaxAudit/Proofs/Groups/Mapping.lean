import SyntaxAudit.Proofs.Groups

/-! Mapping the nodes of groups with a function that keeps a state. Each node is passed once, group by
group and in each group from the first to the last, so what becomes of a node is what the function gives
in the state that all nodes before it have left. Neither the kinds nor the lengths of the groups
change. -/
namespace SyntaxAudit

variable {N M P σ : Type}

def passed (f : N → σ → M × σ) (ns : List N) (s : σ) : σ := ns.foldl (fun s n => (f n s).2) s

def logged (f : N → σ → M × σ) (n : N) (s : σ × List N) : M × (σ × List N) :=
  ((f n s.1).1, ((f n s.1).2, s.2 ++ [n]))

variable {f : N → σ → M × σ}

theorem passedAppend (xs ys : List N) (s : σ) :
    passed f (xs ++ ys) s = passed f ys (passed f xs s) :=
  List.foldl_append

theorem passedLogged (ns : List N) (s : σ) (calls : List N) :
    passed (logged f) ns (s, calls) = (passed f ns s, calls ++ ns) := by
  induction ns generalizing s calls with
  | nil => rw [List.append_nil]; rfl
  | cons n rest ih =>
    have step := ih (f n s).2 (calls ++ [n])
    rwa [List.append_assoc] at step

theorem mapNodesEq (ns : List N) (s : σ) :
    mapNodes f ns s = (ns.mapIdx fun i n => (f n (passed f (ns.take i) s)).1, passed f ns s) := by
  induction ns generalizing s with
  | nil => rfl
  | cons n rest ih =>
    -- The others are passed in the state that the first one leaves.
    rw [mapNodes, List.mapIdx_cons]
    simp only [ih]
    rfl

theorem mapEntriesState (entries : List (String × List N)) (s : σ) :
    (mapEntries f entries s).2 = passed f (entries.flatMap Prod.snd) s := by
  induction entries generalizing s with
  | nil => rfl
  | cons entry rest ih =>
    obtain ⟨kind, ns⟩ := entry
    simp only [mapEntries, List.flatMap_cons, passedAppend, mapNodesEq, ih]

theorem lookupMapEntries (kind : String) (entries : List (String × List N)) (s : σ) :
    (mapEntries f entries s).1.lookup kind = (entries.lookup kind).map fun ns =>
      (mapNodes f ns (passed f ((entries.takeWhile fun e => e.1 ≠ kind).flatMap Prod.snd) s)).1 := by
  induction entries generalizing s with
  | nil => rfl
  | cons entry rest ih =>
    obtain ⟨k, ns⟩ := entry
    simp only [mapEntries, lookupCons, List.takeWhile_cons]
    -- A group in front belongs to the nodes before, unless it is the one that is asked for.
    by_cases own : kind = k
    · simp [own, passed]
    · have apart : decide (k ≠ kind) = true := decide_eq_true (Ne.symm own)
      simp only [if_neg own, apart, if_true, ih, mapNodesEq, List.flatMap_cons, passedAppend]

theorem countsMapEntries (entries : List (String × List N)) (s : σ) :
    (mapEntries f entries s).1.map (fun e => (e.1, e.2.length)) =
      entries.map fun e => (e.1, e.2.length) := by
  induction entries generalizing s with
  | nil => rfl
  | cons entry rest ih =>
    obtain ⟨k, ns⟩ := entry
    simp only [mapEntries, mapNodesEq, List.map_cons, List.length_mapIdx, ih]

namespace Groups

def before (g : Groups N) (kind : String) : List N :=
  (g.entries.takeWhile fun e => e.1 ≠ kind).flatMap Prod.snd

theorem stateMapped (g : Groups N) (s : σ) :
    (g.mapWith f s).2 = passed f (g.entries.flatMap Prod.snd) s :=
  mapEntriesState g.entries s

theorem getMapped (g : Groups N) (s : σ) (kind : String) :
    (g.mapWith f s).1.get? kind = (g.get? kind).map fun ns =>
      ns.mapIdx fun i n => (f n (passed f (g.before kind ++ ns.take i) s)).1 := by
  rw [get?, mapWith, lookupMapEntries]
  simp only [mapNodesEq, passedAppend, before, get?]

theorem countsMapped (g : Groups N) (s : σ) : (g.mapWith f s).1.counts = g.counts :=
  countsMapEntries g.entries s

theorem totalMapped (g : Groups N) (s : σ) : (g.mapWith f s).1.total = g.total := by
  have lengths := congrArg (List.map Prod.snd) (countsMapped (f := f) g s)
  simp only [counts, List.map_map, Function.comp_def] at lengths
  rw [total, total, List.length_flatMap, List.length_flatMap, lengths]

theorem sizeMapped (g : Groups N) (s : σ) : (g.mapWith f s).1.size = g.size := by
  have lengths := congrArg List.length (countsMapped (f := f) g s)
  rwa [counts, counts, List.length_map, List.length_map] at lengths

theorem keysMapped (g : Groups N) (s : σ) : (g.mapWith f s).1.keys = g.keys :=
  mapEntriesKeys f g.entries s

theorem mapMap (g : Groups N) (h : N → M) (k : M → P) : (g.map h).map k = g.map (k ∘ h) := by
  apply equalOfEntries
  simp only [entriesMap, List.map_map, Function.comp_def]

theorem mapVisitsInOrder (g : Groups N) (f : N → σ → M × σ) (s : σ) :
    (g.mapWith f s).2 = passed f (g.entries.flatMap Prod.snd) s ∧
    (g.mapWith (logged f) (s, [])).2 = ((g.mapWith f s).2, g.entries.flatMap Prod.snd) ∧
    (∀ kind, (g.mapWith f s).1.get? kind = (g.get? kind).map fun ns =>
      ns.mapIdx fun i n => (f n (passed f (g.before kind ++ ns.take i) s)).1) ∧
    (g.mapWith f s).1.counts = g.counts ∧ (g.mapWith f s).1.total = g.total ∧
    (g.mapWith f s).1.size = g.size ∧ (g.mapWith f s).1.keys = g.keys ∧
    ∀ (h : N → M) (k : M → P), (g.map h).map k = g.map (k ∘ h) := by
  refine ⟨stateMapped g s, ?_, getMapped g s, countsMapped g s, totalMapped g s, sizeMapped g s,
    keysMapped g s, mapMap g⟩
  rw [stateMapped, passedLogged, stateMapped, List.nil_append]

end Groups
end SyntaxAudit
