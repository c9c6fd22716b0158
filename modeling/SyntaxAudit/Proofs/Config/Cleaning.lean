import Mathlib.Data.List.Basic
import SyntaxAudit.Proofs.Config.Ignored

/-! A document without the keys that are told. Reading passes over these keys, so it finds the same
configuration; what is left are fields, so nothing more is told. The keys told of a table are
exactly those that go, one by one and in ascending order. -/
namespace SyntaxAudit
open Toml (Value Entries Origin)

def strip (told : List Unknown) (place : Place) (entries : Entries) : Entries :=
  entries.filter fun e => ⟨place, e.1⟩ ∉ told

def inKey (key : String) (change : Value → Value) (entries : Entries) : Entries :=
  entries.map fun e => (e.1, if e.1 = key then change e.2 else e.2)

def inItems (change : Value → Value) : Value → Value
  | .array items => .array (items.map change)
  | .tables items => .tables (items.map change)
  | value => value

def inTable (change : Entries → Entries) (value : Value) : Value :=
  match value, tableEntries? value with
  | .table origin _, some entries => .table origin (change entries)
  | _, _ => value

def cleanedRules (told : List Unknown) (rules : Entries) : Entries :=
  strip told .rules (inKey "custom" (inItems (inTable (strip told .custom))) rules)

def cleaned (told : List Unknown) (document : Entries) : Entries :=
  strip told .top (inKey "rules" (inTable (cleanedRules told)) document)

section Decode
variable {σ ε : Type} {step : σ → String → Value → Except ε σ}

theorem foldStrip {told : List Unknown} {place : Place}
    (ignored : ∀ key, ⟨place, key⟩ ∈ told → ∀ s value, step s key value = .ok s)
    (entries : Entries) (s : σ) :
    (strip told place entries).foldlM (fun s e => step s e.1 e.2) s =
      entries.foldlM (fun s e => step s e.1 e.2) s := by
  rw [strip, List.foldlM_filter]
  congr 1
  funext s e
  split
  · rfl
  · rename_i dropped
    have there : (⟨place, e.1⟩ : Unknown) ∈ told := by simpa using dropped
    exact (ignored e.1 there s e.2).symm

theorem foldInKey {key : String} {change : Value → Value}
    (same : ∀ s value, step s key (change value) = step s key value) (entries : Entries) (s : σ) :
    (inKey key change entries).foldlM (fun s e => step s e.1 e.2) s =
      entries.foldlM (fun s e => step s e.1 e.2) s := by
  rw [inKey, List.foldlM_map]
  congr 1
  funext s e
  by_cases own : e.1 = key
  · rw [if_pos own, own, same]
  · rw [if_neg own]

end Decode

theorem inTableCases (change : Entries → Entries) (value : Value) :
    inTable change value = value ∨
      ∃ origin entries, value = .table origin entries ∧
        inTable change value = .table origin (change entries) := by
  cases value with
  | table origin entries =>
    cases found : tableEntries? (.table origin entries) with
    | none => exact .inl (by simp only [inTable, found])
    | some shown =>
      obtain ⟨_, same, _⟩ := tableEntriesIff.mp found
      cases same
      exact .inr ⟨origin, entries, rfl, by simp only [inTable, found]⟩
  | _ => exact .inl rfl

section Ignored
variable {told : List Unknown} (ignored : ∀ u ∈ told, u.place.Ignores u.key)
include ignored

theorem decodeStrippedRule (value : Value) :
    decodeCustomRule (inTable (strip told .custom) value) = decodeCustomRule value := by
  obtain same | ⟨origin, entries, rfl, same⟩ := inTableCases (strip told .custom) value
  · rw [same]
  · have passed : ∀ key, ⟨.custom, key⟩ ∈ told →
        ∀ d v, CustomRule.Draft.set d key v = .ok d := fun key there => ignored _ there
    simp only [same, decodeCustomRule, recordOfTable, foldStrip passed]
    rfl

theorem decodeStrippedRules (value : Value) :
    decodeList decodeCustomRule (inItems (inTable (strip told .custom)) value) =
      decodeList decodeCustomRule value := by
  have each : decodeCustomRule ∘ inTable (strip told .custom) = decodeCustomRule :=
    funext (decodeStrippedRule ignored)
  cases value with
  | array items => simp only [inItems, decodeList, items?, List.mapM_map, each]
  | tables items => simp only [inItems, decodeList, items?, List.mapM_map, each]
  | _ => rfl

theorem decodeCleanedRules (value : Value) :
    decodeRules (inTable (cleanedRules told) value) = decodeRules value := by
  obtain same | ⟨origin, entries, rfl, same⟩ := inTableCases (cleanedRules told) value
  · rw [same]
  · have custom : ∀ c v, RulesConfig.set c "custom" (inItems (inTable (strip told .custom)) v) =
        RulesConfig.set c "custom" v := by
      intro c v
      simp only [RulesConfig.set, decodeStrippedRules ignored]
    have passed : ∀ key, ⟨.rules, key⟩ ∈ told → ∀ c v, RulesConfig.set c key v = .ok c :=
      fun key there => ignored _ there
    simp only [same, decodeRules, recordOfTable, cleanedRules, foldStrip passed, foldInKey custom]

theorem decodeCleaned (document : Entries) :
    Config.decode (cleaned told document) = Config.decode document := by
  have rules : ∀ c v, Config.set c "rules" (inTable (cleanedRules told) v) =
      Config.set c "rules" v := by
    intro c v
    simp only [Config.set, decodeCleanedRules ignored]
  have passed : ∀ key, ⟨.top, key⟩ ∈ told → ∀ c v, Config.set c key v = .ok c :=
    fun key there => ignored _ there
  rw [Config.decode, cleaned, foldStrip passed, foldInKey rules, Config.decode]

end Ignored

def cleanedAt (told : List Unknown) : Place → Entries → Entries
  | .top => cleaned told
  | .rules => cleanedRules told
  | .custom => strip told .custom

theorem keysStrip (told : List Unknown) (place : Place) (entries : Entries) :
    (strip told place entries).map Prod.fst =
      (entries.map Prod.fst).filter fun key => ⟨place, key⟩ ∉ told := by
  rw [strip, List.filter_map]
  rfl

theorem keysInKey (key : String) (change : Value → Value) (entries : Entries) :
    (inKey key change entries).map Prod.fst = entries.map Prod.fst := by
  rw [inKey, List.map_map]
  rfl

theorem keysCleanedAt (told : List Unknown) (place : Place) (entries : Entries) :
    (cleanedAt told place entries).map Prod.fst =
      (entries.map Prod.fst).filter fun key => ⟨place, key⟩ ∉ told := by
  cases place with
  | top => exact (keysStrip ..).trans (by rw [keysInKey])
  | rules => exact (keysStrip ..).trans (by rw [keysInKey])
  | custom => exact keysStrip ..

theorem lookupStrip {told : List Unknown} {place : Place} {key : String}
    (kept : ⟨place, key⟩ ∉ told) (entries : Entries) :
    (strip told place entries).lookup key = entries.lookup key := by
  have found := lookupFilter (fun key => decide (⟨place, key⟩ ∉ told)) entries key
  rwa [if_pos (decide_eq_true kept)] at found

theorem lookupInKey (key : String) (change : Value → Value) (entries : Entries) :
    (inKey key change entries).lookup key = (entries.lookup key).map change := by
  induction entries with
  | nil => rfl
  | cons e rest ih =>
    rw [inKey, List.map_cons, lookupCons, ← inKey, ih, lookupCons]
    by_cases own : key = e.1
    · rw [if_pos own, if_pos own, if_pos own.symm, Option.map_some]
    · rw [if_neg own, if_neg own]

theorem itemsInItems (change : Value → Value) (value : Value) :
    items? (inItems change value) = (items? value).map (List.map change) := by
  cases value <;> rfl

theorem dateNoField (place : Place) : Toml.dateKey ∉ place.fields := by
  cases place <;> decide

theorem offersNoDate (place : Place) {entries : Entries}
    (fields : ∀ key ∈ entries.map Prod.fst, key ∈ place.fields) :
    Toml.Entries.offeredDate? entries = none := by
  cases entries with
  | nil => rfl
  | cons e rest =>
    have apart : e.1 ≠ Toml.dateKey := fun same =>
      dateNoField place (same ▸ fields e.1 List.mem_cons_self)
    exact if_neg apart

theorem entriesInTable {change : Entries → Entries} {value : Value}
    (plain : ∀ entries, tableEntries? value = some entries →
      Toml.Entries.offeredDate? (change entries) = none) :
    tableEntries? (inTable change value) = (tableEntries? value).map change := by
  cases value with
  | table origin entries =>
    cases found : tableEntries? (.table origin entries) with
    | none => simp only [inTable, found, Option.map_none]
    | some shown =>
      simp only [inTable, found, Option.map_some]
      exact tableEntriesIff.mpr ⟨origin, rfl, plain shown found⟩
  | _ => rfl

section Readable
variable {document : Entries} (readable : Toml.entriesReadable document = true)
include readable

theorem toldIff {place : Place} {entries : Entries} (own : entries ∈ tablesAt document place)
    {key : String} (there : key ∈ entries.map Prod.fst) :
    ⟨place, key⟩ ∈ unknownKeys document ↔ key ∉ place.fields := by
  rw [memUnknownKeys, and_iff_right readable]
  exact ⟨fun ⟨_, _, _, other⟩ => other, fun other => ⟨entries, own, there, other⟩⟩

theorem fieldsLeft {place : Place} {entries : Entries} (own : entries ∈ tablesAt document place) :
    (cleanedAt (unknownKeys document) place entries).map Prod.fst =
      (entries.map Prod.fst).filter fun key => key ∈ place.fields := by
  rw [keysCleanedAt]
  refine List.filter_congr fun key there => decide_eq_decide.mpr ?_
  rw [toldIff readable own there]
  exact Decidable.not_not

theorem cleanedPlain (place : Place) {entries : Entries} (own : entries ∈ tablesAt document place) :
    Toml.Entries.offeredDate? (cleanedAt (unknownKeys document) place entries) = none := by
  apply offersNoDate place
  intro key there
  rw [fieldsLeft readable own] at there
  simpa using (List.mem_filter.mp there).2

end Readable

theorem fieldKept {document : Entries} {place : Place} {key : String} (field : key ∈ place.fields) :
    ⟨place, key⟩ ∉ unknownKeys document := by
  intro told
  obtain ⟨_, _, _, _, other⟩ := memUnknownKeys.mp told
  exact other field

theorem rulesTableCleaned {document : Entries} (readable : Toml.entriesReadable document = true) :
    rulesTable? (cleaned (unknownKeys document) document) =
      (rulesTable? document).map (cleanedRules (unknownKeys document)) := by
  have kept : ⟨.top, "rules"⟩ ∉ unknownKeys document := fieldKept (by decide)
  rw [rulesTable?, cleaned, lookupStrip kept, lookupInKey, rulesTable?]
  cases found : document.lookup "rules" with
  | none => rfl
  | some value =>
    refine entriesInTable fun entries shown => cleanedPlain readable .rules ?_
    simp [tablesAt, rulesTable?, found, shown]

theorem customTablesCleaned {document rules : Entries}
    (readable : Toml.entriesReadable document = true) (own : rules ∈ tablesAt document .rules) :
    customTables (cleanedRules (unknownKeys document) rules) =
      (customTables rules).map (strip (unknownKeys document) .custom) := by
  have kept : ⟨.rules, "custom"⟩ ∉ unknownKeys document := fieldKept (by decide)
  have list : ((rules.lookup "custom").map
      (inItems (inTable (strip (unknownKeys document) .custom)))).bind items? =
        ((rules.lookup "custom").bind items?).map
          (List.map (inTable (strip (unknownKeys document) .custom))) := by
    cases rules.lookup "custom" with
    | none => rfl
    | some value => exact itemsInItems _ value
  rw [customTables, cleanedRules, lookupStrip kept, lookupInKey, list, customTables]
  cases found : (rules.lookup "custom").bind items? with
  | none => rfl
  | some items =>
    simp only [Option.map_some, Option.getD_some, List.filterMap_map, List.map_filterMap]
    refine List.filterMap_congr fun value mem => entriesInTable fun entries shown => ?_
    apply cleanedPlain readable .custom
    refine List.mem_flatMap.mpr ⟨rules, own, ?_⟩
    rw [customTables, found]
    exact List.mem_filterMap.mpr ⟨value, mem, shown⟩

theorem tablesCleaned {document : Entries} (readable : Toml.entriesReadable document = true)
    (place : Place) :
    tablesAt (cleaned (unknownKeys document) document) place =
      (tablesAt document place).map (cleanedAt (unknownKeys document) place) := by
  cases place with
  | top => rfl
  | rules =>
    rw [tablesAt, rulesTableCleaned readable, tablesAt]
    cases rulesTable? document <;> rfl
  | custom =>
    rw [tablesAt, rulesTableCleaned readable, tablesAt]
    cases found : rulesTable? document with
    | none => rfl
    | some rules =>
      have own : rules ∈ tablesAt document .rules := by simp [tablesAt, found]
      have step := customTablesCleaned readable own
      simpa [cleanedAt] using step

theorem cleanedNothing (document : Entries) : cleaned [] document = document := by
  have strips : ∀ place, strip [] place = id := by
    intro place
    funext entries
    simp [strip]
  have tables : inTable id = id := by
    funext value
    obtain same | ⟨origin, entries, rfl, same⟩ := inTableCases id value <;> exact same
  have items : inItems id = id := by
    funext value
    cases value <;> simp [inItems]
  have keys : ∀ key, inKey key id = id := by
    intro key
    funext entries
    simp [inKey]
  have rules : cleanedRules [] = id := by
    funext entries
    simp only [cleanedRules, strips, tables, items, keys, id]
  simp only [cleaned, rules, tables, keys, strips, id]

/- One table before and after: each key that goes is told, once and in ascending order. -/
structure Tells (place : Place) (before after : Entries) (told : List Unknown) : Prop where
  place : ∀ u ∈ told, u.place = place
  ascending : told.Pairwise fun u w => u.key < w.key
  taken : ∀ key, key ∈ told.map Unknown.key ↔
    key ∈ before.map Prod.fst ∧ key ∉ after.map Prod.fst

inductive TellsEach (place : Place) : List Entries → List Entries → List Unknown → Prop where
  | nil : TellsEach place [] [] []
  | cons {before after befores afters own told} (first : Tells place before after own)
      (rest : TellsEach place befores afters told) :
      TellsEach place (before :: befores) (after :: afters) (own ++ told)

theorem unknownInAscending (place : Place) (fields : List String) {entries : Entries}
    (distinct : (entries.map Prod.fst).Nodup) :
    (unknownIn place fields entries).Pairwise fun u w => u.key < w.key := by
  unfold unknownIn
  generalize listed : (entries.map Prod.fst).filter (fun key => !fields.contains key) = keys
  have apart : keys.Nodup := listed ▸ distinct.filter _
  have sorted : (keys.mergeSort fun a b => decide (a ≤ b)).Pairwise
      fun a b => decide (a ≤ b) = true := by
    refine List.pairwise_mergeSort (fun a b c first second => ?_) (fun a b => ?_) keys
    · exact decide_eq_true (String.le_trans (of_decide_eq_true first) (of_decide_eq_true second))
    · simpa using String.le_total a b
  have still := (List.mergeSort_perm keys fun a b => decide (a ≤ b)).nodup_iff.mpr apart
  rw [List.pairwise_map]
  refine (sorted.and still).imp fun {a b} both => ?_
  rcases Std.lt_trichotomy a b with less | same | greater
  · exact less
  · exact absurd same both.2
  · exact absurd greater (String.not_lt.mpr (of_decide_eq_true both.1))

theorem unknownInTells {place : Place} {before after : Entries}
    (distinct : (before.map Prod.fst).Nodup)
    (left : after.map Prod.fst = (before.map Prod.fst).filter fun key => key ∈ place.fields) :
    Tells place before after (unknownIn place place.fields before) := by
  refine ⟨fun u mem => (memUnknownIn.mp mem).1, unknownInAscending place _ distinct, fun key => ?_⟩
  have gone : key ∉ after.map Prod.fst ↔ key ∈ before.map Prod.fst → key ∉ place.fields := by
    rw [left, List.mem_filter, not_and, decide_eq_true_iff]
  rw [gone]
  constructor
  · intro mem
    obtain ⟨u, told, rfl⟩ := List.mem_map.mp mem
    obtain ⟨_, there, other⟩ := memUnknownIn.mp told
    exact ⟨there, fun _ => other⟩
  · rintro ⟨there, other⟩
    exact List.mem_map.mpr ⟨⟨place, key⟩, memUnknownIn.mpr ⟨rfl, there, other there⟩, rfl⟩

theorem tellsAll {place : Place} {tables : List Entries} {clean : Entries → Entries}
    {tell : Entries → List Unknown}
    (each : ∀ entries ∈ tables, Tells place entries (clean entries) (tell entries)) :
    TellsEach place tables (tables.map clean) (tables.flatMap tell) := by
  induction tables with
  | nil => exact .nil
  | cons entries rest ih =>
    obtain ⟨first, others⟩ := List.forall_mem_cons.mp each
    exact .cons first (ih others)

theorem tellsNothing (place : Place) (tables : List Entries) :
    TellsEach place tables tables [] := by
  induction tables with
  | nil => exact .nil
  | cons entries rest ih =>
    exact .cons ⟨by simp, .nil, by simp⟩ ih

theorem keyedTables {document : Entries} (keyed : document.Keyed) {place : Place}
    {entries : Entries} (own : entries ∈ tablesAt document place) : entries.Keyed := by
  cases place with
  | top => exact List.mem_singleton.mp own ▸ keyed
  | rules => exact keyedRules keyed own
  | custom =>
    obtain ⟨rules, inside, array, items, origin, found, each, mem, _⟩ := memCustomTables.mp own
    have list := (keyedRules keyed inside).get found
    cases list with
    | array all | tables all =>
      cases Option.some.inj each
      exact Toml.Entries.keyedOfTable (all _ mem)
    | _ => contradiction

theorem tellsCleaned {document : Entries} (keyed : document.Keyed)
    (readable : Toml.entriesReadable document = true) (place : Place) :
    TellsEach place (tablesAt document place)
      (tablesAt (cleaned (unknownKeys document) document) place) (toldAt document place) := by
  rw [tablesCleaned readable, toldAt]
  exact tellsAll fun entries own =>
    unknownInTells (keyedTables keyed own).distinct (fieldsLeft readable own)

theorem cleanedTellsNothing {document : Entries}
    (readable : Toml.entriesReadable document = true) :
    unknownKeys (cleaned (unknownKeys document) document) = [] := by
  refine List.eq_nil_iff_forall_not_mem.mpr fun u told => ?_
  obtain ⟨_, entries, own, there, other⟩ := memUnknownKeys.mp told
  rw [tablesCleaned readable] at own
  obtain ⟨before, mem, rfl⟩ := List.mem_map.mp own
  rw [fieldsLeft readable mem] at there
  exact other (by simpa using (List.mem_filter.mp there).2)

theorem cleaningChangesNothing (text : String) (config : Config) (document : Entries)
    (read : Config.parse text = .ok (config, document)) :
    let told := unknownKeys document
    let clean := cleaned told document
    Config.decode clean = .ok config ∧ unknownKeys clean = [] ∧
    ∃ top rules custom, told = top ++ rules ++ custom ∧
      TellsEach .top [document] [clean] top ∧
      TellsEach .rules (tablesAt document .rules) (tablesAt clean .rules) rules ∧
      TellsEach .custom (tablesAt document .custom) (tablesAt clean .custom) custom := by
  intro told clean
  obtain ⟨keyed, decoded⟩ := parsedKeyed read
  have ignored : ∀ u ∈ told, u.place.Ignores u.key := by
    intro u mem
    obtain ⟨_, _, _, _, other⟩ := memUnknownKeys.mp mem
    exact Place.ignoresOther other
  refine ⟨(decodeCleaned ignored document).trans decoded, ?_⟩
  by_cases readable : Toml.entriesReadable document = true
  · exact ⟨cleanedTellsNothing readable, toldAt document .top, toldAt document .rules,
      toldAt document .custom, unknownKeysEq readable, tellsCleaned keyed readable .top,
      tellsCleaned keyed readable .rules, tellsCleaned keyed readable .custom⟩
  · have silent : told = [] := by simp [told, unknownKeys, readable]
    have same : clean = document := by simp only [clean, silent, cleanedNothing]
    rw [same]
    exact ⟨silent, [], [], [], silent, tellsNothing .top _, tellsNothing .rules _,
      tellsNothing .custom _⟩

theorem cleaningChangesNothingMixed :
    ∃ config document,
      Config.parse ("zed = 1\nrules.custom = [[\"y\", \"rust\"], " ++
        "\x7bname = \"x\", language = \"rust\", tag = 3\x7d]\n") = .ok (config, document) ∧
      unknownKeys document = [⟨.top, "zed"⟩, ⟨.custom, "tag"⟩] ∧
      Config.decode (cleaned [⟨.top, "zed"⟩, ⟨.custom, "tag"⟩] document) = .ok config ∧
      unknownKeys (cleaned [⟨.top, "zed"⟩, ⟨.custom, "tag"⟩] document) = [] := by
  refine parsedWith (fun document => unknownKeys document = [⟨.top, "zed"⟩, ⟨.custom, "tag"⟩])
    (by decide +kernel) fun config document read shown => ?_
  have told := of_decide_eq_true shown
  obtain ⟨decoded, silent, _⟩ := cleaningChangesNothing _ config document read
  rw [told] at decoded silent
  exact ⟨told, decoded, silent⟩

end SyntaxAudit
