import SyntaxAudit.Proofs.Engine.Composition

/-! Reports in parts, one for each rule that runs, under the name of the rule. A part follows from
the rule, its own compilation and the priority that overrides its own. -/
namespace SyntaxAudit

section Joined
variable {α : Type}

def Contribution.joined (parts : List (String × Contribution α)) : Contribution α :=
  ⟨parts.flatMap fun p => p.2.results, parts.flatMap fun p => p.2.faults⟩

structure Contribution.Bears (p : Contribution α) (rule : α → String) (name : String) : Prop where
  results : ∀ x ∈ p.results, rule x = name
  faults : ∀ f ∈ p.faults, f.rule = name

theorem flatMapSelected {β : Type} {part : α → List β} {xs : List α} (keep : α → Bool)
    (select : β → Bool) (same : ∀ x ∈ xs, ∀ y ∈ part x, select y = keep x) :
    (xs.filter keep).flatMap part = (xs.flatMap part).filter select := by
  induction xs with
  | nil => rfl
  | cons x rest ih =>
    have own := same x List.mem_cons_self
    rw [List.flatMap_cons, List.filter_append,
      ← ih fun y mem => same y (List.mem_cons_of_mem x mem), List.filter_cons]
    cases kept : keep x with
    | true =>
      have all : (part x).filter select = part x :=
        List.filter_eq_self.mpr fun y mem => (own y mem).trans kept
      simp only [if_true, List.flatMap_cons, all]
    | false =>
      have none : (part x).filter select = [] :=
        List.filter_eq_nil_iff.mpr fun y mem => by simp [own y mem, kept]
      simp [none]

theorem joinedSelected {parts : List (String × Contribution α)} {rule : α → String}
    (bears : ∀ p ∈ parts, p.2.Bears rule p.1) (keep : String → Bool) :
    Contribution.joined (parts.filter fun p => keep p.1) =
      ⟨(Contribution.joined parts).results.filter fun x => keep (rule x),
        (Contribution.joined parts).faults.filter fun f => keep f.rule⟩ := by
  have results := flatMapSelected (fun p : String × Contribution α => keep p.1)
    (fun x => keep (rule x)) fun p mem x inside => congrArg keep ((bears p mem).results x inside)
  have faults := flatMapSelected (fun p : String × Contribution α => keep p.1)
    (fun f : Fault => keep f.rule) fun p mem f inside => congrArg keep ((bears p mem).faults f inside)
  rw [Contribution.joined, results, faults]
  rfl

end Joined

namespace Engine

def scanParts (e : Engine) (file : SourceFile) : List (String × Contribution Finding) :=
  e.active.map fun entry => (entry.1.name, scanRule e.registry file entry.1 entry.2)

def measureParts (e : Engine) (file : SourceFile) :
    List (String × Contribution (Measurement file.tree)) :=
  e.active.map fun entry => (entry.1.name, measureRule file entry.1 entry.2)

theorem scanJoined (e : Engine) (file : SourceFile) :
    e.scan file = (Contribution.joined (e.scanParts file)).report file := by
  simp only [scan, Contribution.joined, scanParts, List.flatMap_map]
  rfl

theorem measureJoined (e : Engine) (file : SourceFile) :
    e.measure file = ⟨file.name, (Contribution.joined (e.measureParts file)).results,
      (Contribution.joined (e.measureParts file)).faults⟩ := by
  simp only [measure, Contribution.joined, measureParts, List.flatMap_map]

end Engine

def Measures (r : Rule) (file : SourceFile) : Prop :=
  r.metadata.context.measure = true ∧ r.metadata.language.covers file.language = true

instance (r : Rule) (file : SourceFile) : Decidable (Measures r file) := by
  unfold Measures; infer_instance

section Measured
variable {file : SourceFile} {r : Rule} {compiled : CompiledRule}

theorem measureRuleIdle (apart : ¬ Measures r file) : measureRule file r compiled = {} := by
  have test : ¬ (r.metadata.context.measure && r.metadata.language.covers file.language) = true :=
    mt Bool.and_eq_true_iff.mp apart
  simp only [measureRule, if_neg test]

theorem measureRuleOk {groups : Groups (Node file.tree)} (active : Measures r file)
    (ok : measured r compiled file = .ok groups) :
    measureRule file r compiled = { results := [⟨r.name, groups⟩] } := by
  simp only [measureRule, if_pos (Bool.and_eq_true_iff.mpr active), ok]

theorem measureRuleError {e : Failure} (active : Measures r file)
    (failed : measured r compiled file = .error e) :
    measureRule file r compiled = { faults := [⟨r.name, file.name, e.text⟩] } := by
  simp only [measureRule, if_pos (Bool.and_eq_true_iff.mpr active), failed, Failure.toFault]

end Measured

def CompiledRule.own (c : Compilers) (r : Rule) : CompiledRule :=
  (CompiledRule.compile c r).toOption.getD {}

section Own
variable {c : Compilers} {g h : Registry} {e : Engine}

theorem activeOwn (built : Engine.build c g = .ok e) :
    e.active = g.enabledRules.map fun r => (r, CompiledRule.own c r) := by
  have own : List.Forall₂ (fun r entry => (r, CompiledRule.own c r) = entry) g.enabledRules
      e.active := by
    refine (activePaired built).imp fun r entry paired => ?_
    obtain ⟨rfl, compiled⟩ := paired
    rw [CompiledRule.own, compiled]
    rfl
  have equal := List.forall₂_map_left_iff.mpr own
  rw [List.forall₂_eq_eq_eq] at equal
  exact equal.symm

theorem ownCompiled (built : Engine.build c g = .ok e) {r : Rule} (enabled : r ∈ g.enabledRules) :
    CompiledRule.compile c r = .ok (CompiledRule.own c r) := by
  have all := Sequence.mapMOk.mpr (buildOk.mp built).2
  obtain ⟨compiled, ok⟩ := Sequence.mapMTotal.mp ⟨_, all⟩ r enabled
  rw [CompiledRule.own, ok]
  rfl

theorem scanPartsOwn (built : Engine.build c g = .ok e) (file : SourceFile) :
    e.scanParts file =
      g.enabledRules.map fun r => (r.name, scanRule g file r (CompiledRule.own c r)) := by
  rw [Engine.scanParts, activeOwn built, (buildOk.mp built).1, List.map_map]
  rfl

theorem measurePartsOwn (built : Engine.build c g = .ok e) (file : SourceFile) :
    e.measureParts file =
      g.enabledRules.map fun r => (r.name, measureRule file r (CompiledRule.own c r)) := by
  rw [Engine.measureParts, activeOwn built, List.map_map]
  rfl

theorem scanOwn (built : Engine.build c g = .ok e) (file : SourceFile) :
    e.scan file = ⟨file.name,
      g.enabledRules.flatMap fun r => (scanRule g file r (CompiledRule.own c r)).results,
      g.enabledRules.flatMap fun r => (scanRule g file r (CompiledRule.own c r)).faults⟩ := by
  rw [Engine.scanJoined, scanPartsOwn built]
  simp only [Contribution.report, Contribution.joined, List.flatMap_map]

theorem measureOwn (built : Engine.build c g = .ok e) (file : SourceFile) :
    e.measure file = ⟨file.name,
      g.enabledRules.flatMap fun r => (measureRule file r (CompiledRule.own c r)).results,
      g.enabledRules.flatMap fun r => (measureRule file r (CompiledRule.own c r)).faults⟩ := by
  rw [Engine.measureJoined, measurePartsOwn built]
  simp only [Contribution.joined, List.flatMap_map]

theorem scanRuleOverrides (same : h.overrides = g.overrides) : scanRule h = scanRule g := by
  funext file r compiled
  simp only [scanRule, Registry.override?, same]

end Own

end SyntaxAudit
