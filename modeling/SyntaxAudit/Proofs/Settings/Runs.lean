import Mathlib.Data.Finset.Card
import Mathlib.Data.List.Induction
import SyntaxAudit.Proofs.Settings

/-! Settings after any number of writes and removals. What a store holds under a key is told by the last
step on that key, whatever was done to the others. Stores are equal as soon as they cannot be told
apart by a look under each key. -/
namespace SyntaxAudit.Settings

inductive Step where
  | set (key value : String)
  | remove (key : String)
  deriving DecidableEq, Repr

def Step.key : Step → String
  | .set key _ => key
  | .remove key => key

def Step.value? : Step → Option String
  | .set _ value => some value
  | .remove _ => none

def Step.apply (s : Settings) : Step → Settings
  | .set key value => s.set key value
  | .remove key => (s.remove key).2

def run (steps : List Step) : Settings := steps.foldl Step.apply empty

def lastOn (key : String) (steps : List Step) : Option Step :=
  (steps.filter fun step => step.key = key).getLast?

theorem getApply (s : Settings) (step : Step) (key : String) :
    (step.apply s).get? key = if key = step.key then step.value? else s.get? key := by
  cases step with
  | set own value => exact getSet s own value key
  | remove own => exact getErase s own key

theorem runSnoc (steps : List Step) (step : Step) : run (steps ++ [step]) = step.apply (run steps) :=
  List.foldl_concat _ _ _ _

theorem lastOnSnoc (key : String) (steps : List Step) (step : Step) :
    lastOn key (steps ++ [step]) = if key = step.key then some step else lastOn key steps := by
  by_cases own : step.key = key
  · simp [lastOn, own]
  · simp [lastOn, own, Ne.symm own]

theorem keyLastOn {key : String} {steps : List Step} {step : Step}
    (last : lastOn key steps = some step) : step.key = key :=
  of_decide_eq_true (List.mem_filter.mp (List.mem_of_getLast? last)).2

theorem getRun (steps : List Step) (key : String) :
    (run steps).get? key = (lastOn key steps).bind Step.value? := by
  induction steps using List.reverseRecOn with
  | nil => rfl
  | append_singleton steps step ih =>
    -- The last step settles its own key and leaves all others to the steps before it.
    rw [runSnoc, getApply, lastOnSnoc, ih]
    split <;> rfl

theorem containsRun (steps : List Step) (key : String) :
    (run steps).contains key ↔ ∃ value, lastOn key steps = some (.set key value) := by
  rw [contains, getRun]
  constructor
  · intro there
    cases last : lastOn key steps with
    | none => simp [last] at there
    | some step =>
      cases step with
      | set own value => exact ⟨value, by rw [← keyLastOn last]; rfl⟩
      | remove own => simp [last, Step.value?] at there
  · intro ⟨value, last⟩
    rw [last]
    rfl

theorem lastOnFilter (key : String) (steps : List Step) :
    lastOn key (steps.filter fun step => step.key = key) = lastOn key steps := by
  rw [lastOn, List.filter_filter]
  simp only [Bool.and_self]
  rfl

theorem getSingle (s : Settings) (key : String) :
    s.get? key = if s.contains key then some (s.get key) else none := by
  cases there : s.get? key <;> simp [contains, get, there]

theorem keysDistinct (s : Settings) : (s.entries.map Prod.fst).Nodup := by
  rw [List.Nodup, List.pairwise_map]
  refine s.ascending.imp ?_
  intro a b less same
  exact String.lt_irrefl b.1 (same ▸ less)

theorem memHeld (s : Settings) (key : String) :
    key ∈ (s.entries.map Prod.fst).toFinset ↔ s.contains key := by
  rw [List.mem_toFinset, ← not_iff_not, ← lookupAbsent, contains, get?, Option.not_isSome_iff_eq_none]

theorem sizeHeld (s : Settings) : s.size = (s.entries.map Prod.fst).toFinset.card := by
  rw [List.toFinset_card_of_nodup s.keysDistinct, List.length_map, size]

theorem equalIff (s u : Settings) :
    s = u ↔ ∀ key, s.contains key = u.contains key ∧ s.get key = u.get key := by
  constructor
  · rintro rfl key
    exact ⟨rfl, rfl⟩
  · intro alike
    apply equalOfGet
    intro key
    rw [getSingle, getSingle u, (alike key).1, (alike key).2]

theorem runsAsMap (steps : List Step) (key : String) :
    ((run steps).contains key ↔ ∃ value, lastOn key steps = some (.set key value)) ∧
    (run steps).get key = ((lastOn key steps).bind Step.value?).getD "" ∧
    ((run steps).remove key).1 =
      (if (run steps).contains key then some ((run steps).get key) else none) ∧
    (∃ held : Finset String, (∀ k, k ∈ held ↔ (run steps).contains k) ∧
      (run steps).size = held.card) ∧
    ((run steps).isEmpty ↔ (run steps).size = 0) ∧
    (run (steps.filter fun step => step.key = key)).contains key = (run steps).contains key ∧
    (run (steps.filter fun step => step.key = key)).get key = (run steps).get key ∧
    ∀ others, run steps = run others ↔ ∀ k,
      (run steps).contains k = (run others).contains k ∧ (run steps).get k = (run others).get k := by
  have apart : (run (steps.filter fun step => step.key = key)).get? key = (run steps).get? key := by
    rw [getRun, getRun, lastOnFilter]
  refine ⟨containsRun steps key, ?_, getSingle _ key, ⟨_, memHeld _, sizeHeld _⟩,
    List.isEmpty_iff_length_eq_zero, ?_, ?_, fun others => equalIff _ _⟩
  · rw [get, getRun]
  · rw [contains, apart, contains]
  · rw [get, apart, get]

end SyntaxAudit.Settings
