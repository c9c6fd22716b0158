import SyntaxAudit.Proofs.Registry.Rollback

/-! What a configuration makes of a registry, position by position. The rules from before stay in
their places and the new ones follow. An option reaches the first rule of its name and no other,
whether that rule was there before or came along. -/
namespace SyntaxAudit
open Rules

namespace Rules

def Leads (names : List String) (i : Nat) : Prop := ∀ j < i, names[j]? ≠ names[i]?

instance (names : List String) (i : Nat) : Decidable (Leads names i) := by
  unfold Leads; infer_instance

theorem leadsZero (names : List String) : Leads names 0 := fun j less => absurd less j.not_lt_zero

theorem leadsSucc (name : String) (names : List String) (i : Nat) :
    Leads (name :: names) (i + 1) ↔ names[i]? ≠ some name ∧ Leads names i := by
  constructor
  · intro leads
    refine ⟨fun same => leads 0 (Nat.succ_pos i) ?_, fun j less => ?_⟩
    · simpa using same.symm
    · simpa using leads (j + 1) (Nat.succ_lt_succ less)
  · rintro ⟨apart, leads⟩ j less
    cases j with
    | zero => simpa using fun same : some name = names[i]? => apart same.symm
    | succ j => simpa using leads j (Nat.lt_of_succ_lt_succ less)

theorem updateFirstAt (name : String) (change : Rule → Rule) (rules : List Rule) (i : Nat) :
    (updateFirst name change rules)[i]? =
      rules[i]?.map fun r => if r.name = name ∧ Leads (names rules) i then change r else r := by
  induction rules generalizing i with
  | nil => simp [updateFirst]
  | cons s rest ih =>
    by_cases here : s.name = name
    · cases i with
      | zero => simp [updateFirst, here, leadsZero]
      | succ i =>
        simp only [updateFirst, if_pos here, List.getElem?_cons_succ]
        cases found : rest[i]? with
        | none => rfl
        | some r =>
          -- The head took the change, so a later rule of its name does not lead.
          have taken : ¬ (r.name = name ∧ Leads (names (s :: rest)) (i + 1)) := by
            rintro ⟨same, leads⟩
            apply ((leadsSucc s.name (names rest) i).mp leads).1
            simp [names, found, same, here]
          simp only [Option.map_some, if_neg taken]
    · cases i with
      | zero => simp [updateFirst, here]
      | succ i =>
        simp only [updateFirst, if_neg here, List.getElem?_cons_succ, ih]
        cases found : rest[i]? with
        | none => rfl
        | some r =>
          have same : (r.name = name ∧ Leads (names rest) i) ↔
              (r.name = name ∧ Leads (names (s :: rest)) (i + 1)) := by
            refine and_congr_right fun own => ?_
            have apart : (names rest)[i]? ≠ some s.name := by
              simpa [names, found, own] using fun equal : name = s.name => here equal.symm
            exact ((leadsSucc s.name (names rest) i).trans (and_iff_right apart)).symm
          simp only [Option.map_some, same]

def firstFree (taken : List String) (rules : List Rule) : List Rule :=
  (rules.zipIdx.filter fun e => e.1.name ∉ taken ∧ Leads (names rules) e.2).map Prod.fst

theorem firstFreeBehind (taken : List String) (r : Rule) (rest : List Rule) :
    ((rest.zipIdx 1).filter fun e =>
        e.1.name ∉ taken ∧ Leads (names (r :: rest)) e.2).map Prod.fst =
      firstFree (taken ++ [r.name]) rest := by
  have shifted : rest.zipIdx 1 = rest.zipIdx.map fun e => (e.1, e.2 + 1) := List.zipIdx_succ ..
  rw [shifted, List.filter_map, List.map_map, firstFree]
  refine congrArg (List.map Prod.fst) (List.filter_congr fun e mem => ?_)
  have here : (names rest)[e.2]? = some e.1.name := by
    have found := List.mem_zipIdx_iff_getElem?.mp mem
    simp [names, found]
  have leads := leadsSucc r.name (names rest) e.2
  rw [here] at leads
  have same : (e.1.name ∉ taken ∧ Leads (names (r :: rest)) (e.2 + 1)) ↔
      (e.1.name ∉ taken ++ [r.name] ∧ Leads (names rest) e.2) := by
    rw [List.mem_append, not_or, List.mem_singleton, and_assoc]
    refine and_congr_right fun _ => leads.trans ?_
    simp
  exact decide_eq_decide.mpr same

theorem untakenFirst (taken : List String) (rules : List Rule) :
    untaken taken rules = firstFree taken rules := by
  induction rules generalizing taken with
  | nil => rfl
  | cons r rest ih =>
    have split : firstFree taken (r :: rest) =
        (if r.name ∈ taken then [] else [r]) ++ firstFree (taken ++ [r.name]) rest := by
      rw [← firstFreeBehind, firstFree, List.zipIdx_cons, List.filter_cons]
      by_cases old : r.name ∈ taken
      · simp [old]
      · simp [old, leadsZero]
    rw [split, untaken]
    by_cases old : r.name ∈ taken
    · have known : firstFree (taken ++ [r.name]) rest = firstFree taken rest := by
        have same : ∀ name, name ∈ taken ++ [r.name] ↔ name ∈ taken := by
          intro name
          rw [List.mem_append, List.mem_singleton]
          exact or_iff_left_of_imp fun equal => equal ▸ old
        simp only [firstFree, same]
      rw [if_pos old, if_pos old, ih, known, List.nil_append]
    · rw [if_neg old, if_neg old, ih, List.singleton_append]

end Rules

def lastWrite (ws : List (String × String × OptionValue)) (name key : String) :
    Option OptionValue :=
  (ws.reverse.find? fun w => w.1 == name && w.2.1 == key).map fun w => w.2.2

theorem lastWriteAppend (early late : List (String × String × OptionValue)) (name key : String) :
    lastWrite (early ++ late) name key =
      (lastWrite late name key).or (lastWrite early name key) := by
  simp only [lastWrite, List.reverse_append, List.find?_append, Option.map_or]

theorem lastWriteSingle (w : String × String × OptionValue) (name key : String) :
    lastWrite [w] name key = if w.1 = name ∧ w.2.1 = key then some w.2.2 else none := by
  simp only [lastWrite, List.reverse_singleton, List.find?_singleton, Bool.and_eq_true, beq_iff_eq]
  split <;> rfl

namespace Rule

def written (r : Rule) (ws : List (String × String × OptionValue)) : Rule :=
  ws.foldl (fun r w => if w.1 = r.name then r.put w.2.1 (some w.2.2.text) else r) r

theorem writtenView {β : Type} {view : Rule → β} (steady : Steady view) (r : Rule)
    (ws : List (String × String × OptionValue)) : view (r.written ws) = view r := by
  induction ws generalizing r with
  | nil => rfl
  | cons w rest ih =>
    refine (ih _).trans ?_
    change view (if w.1 = r.name then r.put w.2.1 (some w.2.2.text) else r) = view r
    split
    · exact steady ..
    · rfl

theorem writtenGet (r : Rule) (ws : List (String × String × OptionValue)) (key : String) :
    (r.written ws).settings.get? key =
      ((lastWrite ws r.name key).map OptionValue.text).or (r.settings.get? key) := by
  induction ws generalizing r with
  | nil => rfl
  | cons w rest ih =>
    rw [← List.singleton_append, lastWriteAppend, lastWriteSingle]
    by_cases own : w.1 = r.name
    · have step : r.written ([w] ++ rest) = (r.put w.2.1 (some w.2.2.text)).written rest := by
        simp [written, own]
      have same : (r.put w.2.1 (some w.2.2.text)).name = r.name := steadyName ..
      rw [step, ih, same, getPut]
      by_cases asked : key = w.2.1
      · cases lastWrite rest r.name key <;> simp [own, asked]
      · cases lastWrite rest r.name key <;> simp [asked, Ne.symm asked]
    · have step : r.written ([w] ++ rest) = r.written rest := by simp [written, own]
      rw [step, ih, if_neg fun both => own both.1, Option.or_none]

end Rule

namespace RulesConfig

def option? (c : RulesConfig) (name key : String) : Option OptionValue := lastWrite c.writes name key

structure Keyed (c : RulesConfig) : Prop where
  rules : (c.options.map Prod.fst).Nodup
  keys : ∀ o ∈ c.options, (o.2.map Prod.fst).Nodup

theorem lastWriteOne {options : List (String × OptionValue)}
    (distinct : (options.map Prod.fst).Nodup) (rule name key : String) :
    lastWrite (options.map fun o => (rule, o)) name key =
      if name = rule then options.lookup key else none := by
  induction options with
  | nil => simp [lastWrite]
  | cons o rest ih =>
    obtain ⟨k, v⟩ := o
    obtain ⟨fresh, distinct⟩ := List.nodup_cons.mp distinct
    rw [List.map_cons, ← List.singleton_append, lastWriteAppend, ih distinct, lastWriteSingle,
      lookupCons]
    by_cases own : name = rule
    · by_cases asked : key = k
      · have absent : rest.lookup k = none := lookupAbsent.mpr fresh
        simp [own, asked, absent]
      · simp [own, asked, Ne.symm asked]
    · simp [own, Ne.symm own]

theorem optionKeyed {c : RulesConfig} (keyed : c.Keyed) (name key : String) :
    c.option? name key = (c.options.lookup name).bind fun options => options.lookup key := by
  obtain ⟨rules, keys⟩ := keyed
  unfold option? writes
  generalize c.options = options at rules keys
  induction options with
  | nil => rfl
  | cons o rest ih =>
    obtain ⟨rule, options⟩ := o
    obtain ⟨fresh, rules⟩ := List.nodup_cons.mp rules
    have own := lastWriteOne (keys _ List.mem_cons_self) rule name key
    have others := ih rules fun p mem => keys p (List.mem_cons_of_mem _ mem)
    rw [List.flatMap_cons, lastWriteAppend, own, others, lookupCons]
    by_cases same : name = rule
    · have absent : rest.lookup rule = none := lookupAbsent.mpr fresh
      simp [same, absent]
    · simp [same]

def IsNew (taken : List String) (entries : List CustomRule) (e : CustomRule × Nat) : Prop :=
  e.1.name ∉ taken ∧ ∀ d ∈ entries.take e.2, d.name ≠ e.1.name

instance (taken : List String) (entries : List CustomRule) (e : CustomRule × Nat) :
    Decidable (IsNew taken entries e) := by
  unfold IsNew; infer_instance

def newcomers (c : RulesConfig) (taken : List String) : List CustomRule :=
  (c.custom.zipIdx.filter fun e => IsNew taken c.custom e).map Prod.fst

def Permits (c : RulesConfig) (name : String) : Prop :=
  name ∉ c.disabled ∧ (c.enabled = [] ∨ name ∈ c.enabled)

instance (c : RulesConfig) (name : String) : Decidable (c.Permits name) := by
  unfold Permits; infer_instance

theorem leadsEntry {entries : List CustomRule} {e : CustomRule × Nat} (mem : e ∈ entries.zipIdx) :
    Leads (names (entries.map Rule.ofCustom)) e.2 ↔ ∀ d ∈ entries.take e.2, d.name ≠ e.1.name := by
  have found := List.mem_zipIdx_iff_getElem?.mp mem
  have name : ∀ j : Nat,
      (names (entries.map Rule.ofCustom))[j]? = entries[j]?.map CustomRule.name := by
    intro j
    rw [names, List.map_map, List.getElem?_map]
    rfl
  have here : (names (entries.map Rule.ofCustom))[e.2]? = some e.1.name := by
    rw [name, found]
    rfl
  constructor
  · intro leads d early same
    obtain ⟨j, inside⟩ := List.mem_iff_getElem?.mp early
    rw [List.getElem?_take] at inside
    split at inside
    · rename_i less
      exact leads j less (by rw [here, name, inside, Option.map_some, same])
    · contradiction
  · intro apart j less equal
    rw [here, name] at equal
    obtain ⟨d, there, same⟩ := Option.map_eq_some_iff.mp equal
    have early : (entries.take e.2)[j]? = some d := by rw [List.getElem?_take, if_pos less, there]
    exact apart d (List.mem_of_getElem? early) same

theorem untakenNewcomers (c : RulesConfig) (taken : List String) :
    untaken taken (c.custom.map Rule.ofCustom) = (c.newcomers taken).map Rule.ofCustom := by
  have test : ∀ e ∈ c.custom.zipIdx,
      decide ((Rule.ofCustom e.1).name ∉ taken ∧
        Leads (names (c.custom.map Rule.ofCustom)) e.2) = decide (IsNew taken c.custom e) := by
    intro e mem
    exact decide_eq_decide.mpr (and_congr_right fun _ => leadsEntry mem)
  rw [untakenFirst, firstFree, List.zipIdx_map, List.filter_map, newcomers, List.map_map,
    List.map_map]
  exact congrArg (List.map (Rule.ofCustom ∘ Prod.fst)) (List.filter_congr test)

end RulesConfig

namespace Registry

theorem writeRules (g : Registry) (w : String × String × OptionValue) :
    (g.write w).rules = updateFirst w.1 (fun r => r.put w.2.1 (some w.2.2.text)) g.rules := by
  obtain ⟨missing, same⟩ | ⟨r, _, same⟩ := writeCases g w <;> rw [same]
  refine (updateFirstFixed fun r found => ?_).symm
  rw [missing] at found
  contradiction

theorem writesAt (g : Registry) (ws : List (String × String × OptionValue)) (i : Nat) :
    (ws.foldl write g).rules[i]? =
      g.rules[i]?.map fun r => if Leads (names g.rules) i then r.written ws else r := by
  induction ws generalizing g with
  | nil =>
    have fixed : (fun r : Rule => if Leads (names g.rules) i then r.written [] else r) = id := by
      funext r
      exact ite_self r
    rw [fixed, Option.map_id]
    rfl
  | cons w rest ih =>
    -- A write keeps the names, so the same positions lead before and after it.
    have kept : names (g.write w).rules = names g.rules := writeView Rule.steadyName g w
    rw [List.foldl_cons, ih, kept, writeRules, updateFirstAt, Option.map_map]
    congr 1
    funext r
    by_cases leads : Leads (names g.rules) i
    · by_cases own : r.name = w.1
      · simp [leads, own, Rule.written]
      · simp [leads, own, Ne.symm own, Rule.written]
    · simp [leads]

theorem configureRules (g : Registry) (c c' : RulesConfig) (custom : c'.custom = c.custom)
    (options : c'.options = c.options) : (g.configure c').rules = (g.configure c).rules := by
  have start : (g.joined c').rules = (g.joined c).rules := by simp only [joined, brought, custom]
  have writes : c'.writes = c.writes := by simp only [RulesConfig.writes, options]
  apply List.ext_getElem?
  intro i
  rw [configureEq, configureEq, writesAt, writesAt, start, writes]

theorem broughtEq (g : Registry) (c : RulesConfig) :
    g.brought c = (c.newcomers (names g.reset.rules)).map Rule.ofCustom :=
  c.untakenNewcomers (names g.reset.rules)

theorem joinedSetting {g : Registry} {c : RulesConfig} {i : Nat} {r : Rule}
    (found : (g.joined c).rules[i]? = some r) (key : String) :
    r.settings.get? key = g.reset.rules[i]?.bind fun s => s.settings.get? key := by
  have split : (g.joined c).rules = g.reset.rules ++ g.brought c := rfl
  rw [split] at found
  by_cases old : i < g.reset.rules.length
  · rw [List.getElem?_append_left old] at found
    rw [found]
    rfl
  · have beyond : g.reset.rules.length ≤ i := Nat.le_of_not_lt old
    rw [List.getElem?_append_right beyond, broughtEq] at found
    obtain ⟨e, _, rfl⟩ := List.mem_map.mp (List.mem_of_getElem? found)
    rw [List.getElem?_eq_none beyond]
    rfl

theorem configureSetting {g : Registry} {c : RulesConfig} {i : Nat} {r : Rule}
    (found : (g.configure c).rules[i]? = some r) (key : String) :
    r.settings.get? key =
      if Leads (names (g.configure c).rules) i ∧ (c.option? r.name key).isSome then
        (c.option? r.name key).map OptionValue.text
      else g.reset.rules[i]?.bind fun s => s.settings.get? key := by
  have kept : names (g.configure c).rules = names (g.joined c).rules :=
    configureView Rule.steadyName g c
  rw [kept]
  rw [configureEq, writesAt] at found
  obtain ⟨s, start, same⟩ := Option.map_eq_some_iff.mp found
  rw [← joinedSetting start key]
  by_cases leads : Leads (names (g.joined c).rules) i
  · rw [if_pos leads] at same
    rw [← same, Rule.writtenView Rule.steadyName, Rule.writtenGet, ← RulesConfig.option?]
    cases c.option? s.name key <;> simp [leads]
  · rw [if_neg leads] at same
    rw [← same, if_neg fun first => leads first.1]

theorem writeLists (g : Registry) (w : String × String × OptionValue) :
    ((g.write w).enabled, (g.write w).disabled, (g.write w).overrides) =
      (g.enabled, g.disabled, g.overrides) := by
  obtain ⟨_, same⟩ | ⟨r, _, same⟩ := writeCases g w <;> rw [same]

theorem configureLists (g : Registry) (c : RulesConfig) :
    (g.configure c).enabled = c.enabled ∧ (g.configure c).disabled = c.disabled ∧
      (g.configure c).overrides = c.priority := by
  have same := writesView (fun h => (h.enabled, h.disabled, h.overrides)) writeLists c.writes
    (g.joined c)
  rw [← configureEq] at same
  simp only [Prod.mk.injEq] at same
  exact same

theorem allowsConfigure (g : Registry) (c : RulesConfig) (name : String) :
    (g.configure c).allows name = decide (c.Permits name) := by
  obtain ⟨enabled, disabled, _⟩ := configureLists g c
  rw [Bool.eq_iff_iff, allows, enabled, disabled]
  simp [RulesConfig.Permits, and_comm]

theorem enabledConfigure (g : Registry) (c : RulesConfig) :
    (g.configure c).enabledRules = (g.configure c).rules.filter fun r => c.Permits r.name := by
  simp only [enabledRules, allowsConfigure]

structure Configured (base : List Rule) (c : RulesConfig) (after : Registry) : Prop where
  rules : after.rules.map Rule.bare =
    (base ++ (c.newcomers (names base)).map Rule.ofCustom).map Rule.bare
  settings : ∀ i r, after.rules[i]? = some r → ∀ key,
    r.settings.get? key =
      if Leads (names after.rules) i ∧ (c.option? r.name key).isSome then
        (c.option? r.name key).map OptionValue.text
      else base[i]?.bind fun s => s.settings.get? key
  priorities : ∀ name, after.override? name = c.priority.lookup name
  enabled : after.enabledRules = after.rules.filter fun r => c.Permits r.name

theorem configureEffect (g : Registry) (c : RulesConfig) :
    Configured g.reset.rules c (g.configure c) ∧
    (c.Keyed → ∀ name key, c.option? name key =
      (c.options.lookup name).bind fun options => options.lookup key) := by
  refine ⟨⟨?_, fun i r found key => configureSetting found key, fun name => ?_,
    enabledConfigure g c⟩, RulesConfig.optionKeyed⟩
  · rw [configureView Rule.steadyBare, ← broughtEq]
    rfl
  · rw [override?, (configureLists g c).2.2]

theorem configureEffectShadowed :
    let g := (empty.register (Rule.declared { name := "a" })).register
      ((Rule.declared { name := "a" }).set "max" "9")
    let c : RulesConfig :=
      { disabled := ["b"]
        options := [("a", [("max", .string "3")]), ("b", [("tag", .string "new")])]
        custom := [{ name := "a", language := .rust }, { name := "b", language := .rust },
          { name := "b", language := .tsx }] }
    names (g.configure c).rules = ["a", "a", "b"] ∧
    (g.configure c).rules.map (fun r => r.settings.entries) =
      [[("max", "3")], [("max", "9")], [("tag", "new")]] ∧
    names (g.configure c).enabledRules = ["a", "a"] ∧
    (∃ r, (g.configure c).rules[2]? = some r ∧ r.metadata.language = .rust ∧
      r.settings.get? "tag" = some "new") ∧
    c.option? "b" "tag" = ((c.options.lookup "b").bind fun o => o.lookup "tag") := by
  intro g c
  have keyed : c.Keyed := ⟨by decide, by decide⟩
  obtain ⟨effect, maps⟩ := configureEffect g c
  refine ⟨by decide, by decide, by decide, ⟨_, rfl, rfl, ?_⟩, maps keyed "b" "tag"⟩
  exact (effect.settings 2 _ rfl "tag").trans (by decide)

end Registry
end SyntaxAudit
