import Mathlib.Data.List.Nodup
import SyntaxAudit.Registry
import SyntaxAudit.Proofs.Settings

/-! Lists of rules under changes to the first rule of a name and under additions. Names and what a
rule declares outlast every change of a setting; an addition leaves the rules before it alone. -/
namespace SyntaxAudit
namespace Rule

def put (r : Rule) (key : String) : Option String → Rule
  | some value => r.set key value
  | none => r.unset key

def bare (r : Rule) : Rule := { r with settings := .empty }

def Steady {β : Type} (view : Rule → β) : Prop :=
  ∀ r key value, view (put r key value) = view r

theorem steadyName : Steady name := by
  intro r key value
  cases value <;> rfl

theorem steadyBare : Steady bare := by
  intro r key value
  cases value <;> rfl

@[simp] theorem nameBare (r : Rule) : r.bare.name = r.name := rfl

theorem getPut (r : Rule) (key other : String) (value : Option String) :
    (r.put key value).settings.get? other =
      if other = key then value else r.settings.get? other := by
  cases value with
  | none => exact r.settings.getErase key other
  | some v => exact r.settings.getSet key v other

theorem putBackPut (r : Rule) (key value : String) :
    (r.put key (some value)).put key (r.settings.get? key) = r := by
  cases held : r.settings.get? key with
  | none =>
    change { r with settings := (r.settings.set key value).erase key } = r
    rw [Settings.eraseSet held]
  | some previous =>
    change { r with settings := (r.settings.set key value).set key previous } = r
    rw [Settings.setSet held]

end Rule

namespace Rules

def named (name : String) (rules : List Rule) : Option Rule := rules.find? fun r => r.name == name

def names (rules : List Rule) : List String := rules.map Rule.name

def valueIn (rules : List Rule) (name key : String) : Option String :=
  (named name rules).bind fun r => r.settings.get? key

theorem namedCons (name : String) (r : Rule) (rules : List Rule) :
    named name (r :: rules) = if r.name = name then some r else named name rules := by
  by_cases same : r.name = name <;> simp [named, same]

theorem namedAppend {name : String} {rules : List Rule} (present : name ∈ names rules)
    (more : List Rule) : named name (rules ++ more) = named name rules := by
  induction rules with
  | nil => simp [names] at present
  | cons r rest ih =>
    rw [List.cons_append, namedCons, namedCons]
    split
    · rfl
    · rename_i apart
      have inside : name ∈ names rest := by
        rcases List.mem_cons.mp present with same | inside
        · exact absurd same.symm apart
        · exact inside
      exact ih inside

theorem namedAppendAbsent {name : String} {rules : List Rule} (absent : name ∉ names rules)
    (more : List Rule) : named name (rules ++ more) = named name more := by
  have missing : named name rules = none := by
    apply List.find?_eq_none.mpr
    intro r mem
    have apart : r.name ≠ name := fun same => absent (List.mem_map.mpr ⟨r, mem, same⟩)
    simpa using apart
  rw [named, List.find?_append, ← named, ← named, missing, Option.none_or]

theorem namedFilter {name : String} (keep : String → Bool) (kept : keep name = true)
    (rules : List Rule) : named name (rules.filter fun r => keep r.name) = named name rules := by
  induction rules with
  | nil => rfl
  | cons r rest ih =>
    by_cases same : r.name = name
    · have keeps : keep r.name = true := by rw [same]; exact kept
      rw [List.filter_cons_of_pos (by simpa using keeps), namedCons, namedCons, if_pos same,
        if_pos same]
    · rw [namedCons, if_neg same, ← ih, List.filter_cons]
      split
      · rw [namedCons, if_neg same]
      · rfl

theorem namedBare (name : String) (rules : List Rule) :
    named name (rules.map Rule.bare) = (named name rules).map Rule.bare := by
  simp only [named, List.find?_map]
  rfl

theorem presentOfNamed {name : String} {rules : List Rule} {r : Rule}
    (found : named name rules = some r) : name ∈ names rules := by
  have same : r.name = name := by simpa using List.find?_some found
  exact List.mem_map.mpr ⟨r, List.mem_of_find?_eq_some found, same⟩

theorem namedOfPresent {name : String} {rules : List Rule} (present : name ∈ names rules) :
    ∃ r, named name rules = some r := by
  obtain ⟨r, mem, same⟩ := List.mem_map.mp present
  exact Option.isSome_iff_exists.mp (List.find?_isSome.mpr ⟨r, mem, by simpa using same⟩)

theorem namedDistinct {rules : List Rule} (distinct : (names rules).Nodup) {r : Rule}
    (mem : r ∈ rules) : named r.name rules = some r := by
  obtain ⟨s, found⟩ := namedOfPresent (List.mem_map_of_mem mem)
  have same : s.name = r.name := by simpa using List.find?_some found
  rw [found, List.inj_on_of_nodup_map distinct (List.mem_of_find?_eq_some found) mem same]

section Change
variable {change : Rule → Rule}

theorem updateFirstView {β : Type} {view : Rule → β} (same : ∀ r, view (change r) = view r)
    (name : String) (rules : List Rule) :
    (updateFirst name change rules).map view = rules.map view := by
  induction rules with
  | nil => rfl
  | cons r rest ih =>
    simp only [updateFirst]
    split
    · simp [same]
    · simp [ih]

theorem updateFirstTwice {change' : Rule → Rule} (kept : ∀ r, (change r).name = r.name)
    (name : String) (rules : List Rule) :
    updateFirst name change' (updateFirst name change rules) =
      updateFirst name (fun r => change' (change r)) rules := by
  induction rules with
  | nil => rfl
  | cons r rest ih =>
    by_cases same : r.name = name
    · simp [updateFirst, same, kept]
    · simp [updateFirst, same, ih]

theorem updateFirstFixed {name : String} {rules : List Rule}
    (fixed : ∀ r, named name rules = some r → change r = r) :
    updateFirst name change rules = rules := by
  induction rules with
  | nil => rfl
  | cons r rest ih =>
    simp only [namedCons] at fixed
    simp only [updateFirst]
    split
    · rename_i same
      rw [fixed r (if_pos same)]
    · rename_i apart
      simp only [if_neg apart] at fixed
      rw [ih fixed]

theorem namedUpdateFirst (kept : ∀ r, (change r).name = r.name) (name other : String)
    (rules : List Rule) :
    named other (updateFirst name change rules) =
      if other = name then (named other rules).map change else named other rules := by
  induction rules with
  | nil => simp [updateFirst, named]
  | cons r rest ih =>
    by_cases same : r.name = name
    · by_cases asked : other = name
      · simp [updateFirst, namedCons, same, kept, asked]
      · have different : ¬ name = other := fun equal => asked equal.symm
        simp [updateFirst, namedCons, same, kept, asked, different]
    · simp only [updateFirst, if_neg same, namedCons, ih]
      by_cases asked : other = name
      · have different : r.name ≠ other := by rw [asked]; exact same
        simp [asked, same]
      · simp [asked]

end Change

theorem valueInUpdate {name other key : String} {change : Rule → Rule}
    (kept : ∀ r, (change r).name = r.name)
    (silent : other = name → ∀ r, (change r).settings.get? key = r.settings.get? key)
    (rules : List Rule) :
    valueIn (updateFirst name change rules) other key = valueIn rules other key := by
  simp only [valueIn, namedUpdateFirst kept]
  split
  · rename_i asked
    cases named other rules with
    | none => rfl
    | some r => simpa using silent asked r
  · rfl

def untaken (taken : List String) : List Rule → List Rule
  | [] => []
  | r :: rest =>
      if r.name ∈ taken then untaken taken rest else r :: untaken (taken ++ [r.name]) rest

theorem addNewEq (rules more : List Rule) :
    addNew rules more =
      (rules ++ untaken (names rules) more, (untaken (names rules) more).length) := by
  induction more generalizing rules with
  | nil => simp [addNew, untaken]
  | cons r rest ih =>
    have test : (rules.any fun s => s.name == r.name) = true ↔ r.name ∈ names rules := by
      simp [names]
    by_cases taken : r.name ∈ names rules
    · simp only [addNew, if_pos (test.mpr taken), untaken, if_pos taken]
      exact ih rules
    · have extended : names (rules ++ [r]) = names rules ++ [r.name] := by simp [names]
      simp only [addNew, if_neg (mt test.mp taken), untaken, if_neg taken, ih, extended]
      simp

theorem addNewRules (rules more : List Rule) :
    (addNew rules more).1 = rules ++ untaken (names rules) more := by
  rw [addNewEq]

theorem untakenFresh {taken : List String} {more : List Rule} {r : Rule}
    (mem : r ∈ untaken taken more) : r.name ∉ taken ∧ r ∈ more := by
  induction more generalizing taken with
  | nil => simp [untaken] at mem
  | cons s rest ih =>
    simp only [untaken] at mem
    split at mem
    · exact ⟨(ih mem).1, List.mem_cons_of_mem _ (ih mem).2⟩
    · rename_i free
      rcases List.mem_cons.mp mem with rfl | inside
      · exact ⟨free, List.mem_cons_self⟩
      · obtain ⟨apart, old⟩ := ih inside
        exact ⟨fun old => apart (List.mem_append_left _ old), List.mem_cons_of_mem _ old⟩

theorem untakenDistinct (taken : List String) (more : List Rule) :
    (names (untaken taken more)).Nodup := by
  induction more generalizing taken with
  | nil => exact List.nodup_nil
  | cons r rest ih =>
    unfold untaken
    split
    · exact ih taken
    · refine List.nodup_cons.mpr ⟨fun again => ?_, ih _⟩
      obtain ⟨s, mem, same⟩ := List.mem_map.mp again
      exact (untakenFresh mem).1 (by simp [same])

theorem namedUntaken {taken : List String} {more : List Rule} {r : Rule}
    (mem : r ∈ untaken taken more) : named r.name (untaken taken more) = some r :=
  namedDistinct (untakenDistinct taken more) mem

end Rules
end SyntaxAudit
