import SyntaxAudit.Proofs.Registry.Effect
import SyntaxAudit.Proofs.Text

/-! Options read back. An option reaches its rule as a text, and what a rule reads off that text is
the value that was configured, in every range in which the value lies. -/
namespace SyntaxAudit
open Rules

namespace Settings

def ReadsBack (s : Settings) (key : String) : OptionValue → Prop
  | .integer n =>
      -Text.signedLimit ≤ n → n < Text.signedLimit →
        s.integer? Text.signedLimit key = some n ∧
        s.natural? Text.wordLimit key = (if 0 ≤ n then some n.toNat else none) ∧
        s.natural? 256 key = (if 0 ≤ n ∧ n ≤ 255 then some n.toNat else none)
  | .boolean b => s.boolean? key = some b
  | .float x => s.get key = Decimal.positional x
  | .string text =>
      s.get key = text ∧ ∃ t, s.string? key = some t ∧ Text.Trims text.toList t.toList

variable {s : Settings} {key : String}

theorem trimmedStored {text : String} (stored : s.get? key = some text) :
    s.trimmed? key = some (Text.trimmed text.toList) := by
  rw [trimmed?, stored, Option.map_some]

theorem integerStored {n : Int} (stored : s.get? key = some (Text.integer n)) :
    s.trimmed? key = some (Text.integer n).toList := by
  rw [trimmedStored stored, Text.trimmedSolid (Text.integerSolid n)]

theorem storedReadsBack {v : OptionValue} (stored : s.get? key = some v.text) :
    s.ReadsBack key v := by
  have value : s.get key = v.text := by rw [get, stored, Option.getD_some]
  cases v with
  | boolean b =>
    have solid : Text.trimmed (Text.boolean b).toList = (Text.boolean b).toList := by
      cases b <;> decide
    change s.boolean? key = some b
    rw [boolean?, trimmedStored stored]
    change Text.boolean? (Text.trimmed (Text.boolean b).toList) = some b
    rw [solid, Text.booleanReadsBack]
  | integer n =>
    intro low high
    have written := integerStored stored
    have word : 0 ≤ n ∧ n < Text.wordLimit ↔ 0 ≤ n := by
      have wider : (Text.signedLimit : Int) ≤ Text.wordLimit := by decide
      omega
    have byte : 0 ≤ n ∧ n < (256 : Nat) ↔ 0 ≤ n ∧ n ≤ 255 := by omega
    refine ⟨?_, ?_, ?_⟩
    · rw [integer?, written, Option.bind_some, Text.integerReadsBack low high]
    · rw [natural?, written, Option.bind_some, Text.naturalReadsBack]
      simp only [word]
    · rw [natural?, written, Option.bind_some, Text.naturalReadsBack]
      simp only [byte]
  | float x => exact value
  | string text =>
    refine ⟨value, String.ofList (Text.trimmed text.toList), ?_, ?_⟩
    · rw [string?, trimmedStored stored]
      rfl
    · rw [String.toList_ofList]
      exact Text.trimmedTrims text.toList

end Settings

namespace Rules

theorem namedLeads {name : String} {rules : List Rule} {r : Rule}
    (found : named name rules = some r) :
    ∃ i : Nat, rules[i]? = some r ∧ Leads (names rules) i := by
  obtain ⟨own, i, inside, here, before⟩ := List.find?_eq_some_iff_getElem.mp found
  refine ⟨i, by rw [List.getElem?_eq_getElem inside, here], fun j less same => ?_⟩
  have apart := before j less
  have there : j < rules.length := Nat.lt_trans less inside
  simp only [names, List.getElem?_map, List.getElem?_eq_getElem inside,
    List.getElem?_eq_getElem there, here, Option.map_some, Option.some.injEq] at same
  simp [same, beq_iff_eq.mp own] at apart

theorem untakenPresent {taken : List String} {more : List Rule} {name : String}
    (offered : name ∈ names more) : name ∈ taken ∨ name ∈ names (untaken taken more) := by
  induction more generalizing taken with
  | nil => contradiction
  | cons r rest ih =>
    unfold untaken
    rcases List.mem_cons.mp offered with rfl | later
    · by_cases old : r.name ∈ taken
      · exact .inl old
      · rw [if_neg old]
        exact .inr List.mem_cons_self
    · split
      · exact ih later
      · have next : name ∈ taken ++ [r.name] ∨ _ := ih later
        rcases next with old | new
        · rcases List.mem_append.mp old with old | own
          · exact .inl old
          · exact .inr (List.mem_cons.mpr (.inl (List.mem_singleton.mp own)))
        · exact .inr (List.mem_cons_of_mem _ new)

end Rules

namespace Registry

theorem namesReset (g : Registry) :
    names g.reset.rules = (names g.rules).filter fun name => !g.customNames.contains name := by
  rw [resetEq, names, names, ← unwindView Rule.steadyName g.overwritten g.rules, List.filter_map]
  rfl

theorem presentIff (g : Registry) (c : RulesConfig) (name : String) :
    name ∈ names (g.configure c).rules ↔
      (name ∈ names g.rules ∧ name ∉ g.customNames) ∨ name ∈ c.custom.map CustomRule.name := by
  have start : names (g.configure c).rules = names g.reset.rules ++ names (g.brought c) :=
    (configureView Rule.steadyName g c).trans List.map_append
  have old : name ∈ names g.reset.rules ↔ name ∈ names g.rules ∧ name ∉ g.customNames := by
    rw [namesReset, List.mem_filter]
    simp
  have offered : names (c.custom.map Rule.ofCustom) = c.custom.map CustomRule.name := List.map_map
  rw [start, List.mem_append, old]
  constructor
  · rintro (before | new)
    · exact .inl before
    · obtain ⟨r, mem, same⟩ := List.mem_map.mp new
      exact .inr (offered ▸ List.mem_map.mpr ⟨r, (untakenFresh mem).2, same⟩)
  · rintro (before | new)
    · exact .inl before
    · exact (untakenPresent (offered ▸ new)).imp_left old.mp

theorem optionsReadBack (g : Registry) (c : RulesConfig) (keyed : c.Keyed) (name key : String)
    (v : OptionValue)
    (registered : (name ∈ names g.rules ∧ name ∉ g.customNames) ∨
      name ∈ c.custom.map CustomRule.name)
    (given : ((c.options.lookup name).bind fun options => options.lookup key) = some v) :
    ∃ r, (g.configure c).get? name = some r ∧ r.settings.ReadsBack key v := by
  obtain ⟨r, found⟩ := namedOfPresent ((presentIff g c name).mpr registered)
  refine ⟨r, found, Settings.storedReadsBack ?_⟩
  have own : r.name = name := by simpa using List.find?_some found
  obtain ⟨i, here, leads⟩ := namedLeads found
  have option : c.option? r.name key = some v := by rw [own, RulesConfig.optionKeyed keyed, given]
  rw [configureSetting here key, if_pos ⟨leads, by rw [option]; rfl⟩, option]
  rfl

theorem optionsReadBackLeast :
    let g := (empty.register (Rule.declared { name := "a" })).register
      (Rule.declared { name := "a" })
    let c : RulesConfig :=
      { options :=
          [("a", [("least", .integer (-9223372036854775808)), ("tag", .string " x y\n")])] }
    (g.configure c).rules.map (fun r => r.settings.entries) =
      [[("least", "-9223372036854775808"), ("tag", " x y\n")], []] ∧
    (∃ r, (g.configure c).get? "a" = some r ∧
      r.settings.integer? Text.signedLimit "least" = some (-9223372036854775808) ∧
      r.settings.natural? Text.wordLimit "least" = none ∧ r.settings.natural? 256 "least" = none) ∧
    ∃ r, (g.configure c).get? "a" = some r ∧ r.settings.get "tag" = " x y\n" ∧
      ∃ t, r.settings.string? "tag" = some t ∧ Text.Trims " x y\n".toList t.toList := by
  intro g c
  have keyed : c.Keyed := ⟨by decide, by decide⟩
  have registered : "a" ∈ names g.rules ∧ "a" ∉ g.customNames := by decide
  refine ⟨by decide +kernel, ?_, optionsReadBack g c keyed "a" "tag" _ (.inl registered) rfl⟩
  obtain ⟨r, found, reads⟩ := optionsReadBack g c keyed "a" "least" _ (.inl registered) rfl
  exact ⟨r, found, reads (by decide) (by decide)⟩

end Registry
end SyntaxAudit
