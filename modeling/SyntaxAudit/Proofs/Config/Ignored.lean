import Mathlib.Logic.Basic
import SyntaxAudit.Config
import SyntaxAudit.Proofs.Lookup
import SyntaxAudit.Proofs.Toml.Keys

/-! Keys that reading a configuration passes over, and which of them are told. The fields that are
listed for a record are those that its reader minds. All that is passed over in a table is told if
the table is in sight: the rules have to be a table, not an array, and no table on the way may stand
for a date. -/
namespace SyntaxAudit
open Toml (Value Entries Origin)

namespace Place

def fields : Place → List String
  | .top => Config.fields
  | .rules => RulesConfig.fields
  | .custom => CustomRule.fields

def Ignores (place : Place) (key : String) : Prop :=
  match place with
  | .top => ∀ c value, Config.set c key value = .ok c
  | .rules => ∀ c value, RulesConfig.set c key value = .ok c
  | .custom => ∀ d value, CustomRule.Draft.set d key value = .ok d

theorem ignoresOther {place : Place} {key : String} (other : key ∉ place.fields) :
    place.Ignores key := by
  cases place with
  | top =>
    intro c value
    unfold Config.set
    split
    · simp [fields, Config.fields] at other
    · rfl
  | rules =>
    intro c value
    unfold RulesConfig.set
    split
    case h_6 => rfl
    all_goals simp [fields, RulesConfig.fields] at other
  | custom =>
    intro d value
    unfold CustomRule.Draft.set
    split
    case h_10 => rfl
    all_goals simp [fields, CustomRule.fields] at other

theorem minds {place : Place} {key : String} (own : key ∈ place.fields) : ¬ place.Ignores key := by
  intro ignores
  cases place with
  | top =>
    have passed := ignores {} (.boolean true)
    simp only [fields, Config.fields, List.mem_singleton] at own
    subst own
    cases passed
  | rules =>
    have passed := ignores {} (.boolean true)
    simp only [fields, RulesConfig.fields, List.mem_cons, List.not_mem_nil, or_false] at own
    rcases own with rfl | rfl | rfl | rfl | rfl <;> cases passed
  | custom =>
    have passed := ignores {} (.boolean true)
    simp only [fields, CustomRule.fields, List.mem_cons, List.not_mem_nil, or_false] at own
    rcases own with rfl | rfl | rfl | rfl | rfl | rfl | rfl | rfl | rfl <;> cases passed

theorem ignoresIff {place : Place} {key : String} : place.Ignores key ↔ key ∉ place.fields :=
  ⟨fun ignores own => minds own ignores, ignoresOther⟩

end Place

/- How the message on a key at this place begins. No such beginning goes on to be another. -/
def Place.opening (place : Place) : List Char := (place.heading ++ ": '").toList

theorem Place.openingApart {place other : Place} (front : place.opening <+: other.opening) :
    place = other := by
  revert front
  cases place <;> cases other <;> decide

namespace Unknown

theorem messageOpens (u : Unknown) :
    u.message.toList = u.place.opening ++ (u.key.toList ++ ['\'']) := by
  simp only [message, Place.opening, String.toList_append, List.append_assoc]
  rfl

theorem messageOwn {u w : Unknown} (same : u.message = w.message) : u = w := by
  have chars : u.place.opening ++ (u.key.toList ++ ['\'']) =
      w.place.opening ++ (w.key.toList ++ ['\'']) := by
    rw [← messageOpens, ← messageOpens, same]
  have front := List.prefix_append u.place.opening (u.key.toList ++ ['\''])
  rw [chars] at front
  have place : u.place = w.place := by
    rcases List.prefix_or_prefix_of_prefix front (List.prefix_append ..) with left | right
    · exact Place.openingApart left
    · exact (Place.openingApart right).symm
  rw [place] at chars
  have key := String.toList_inj.mp (List.append_cancel_right (List.append_cancel_left chars))
  cases u
  cases w
  cases place
  cases key
  rfl

theorem memMessages {u : Unknown} {told : List Unknown} :
    u.message ∈ told.map message ↔ u ∈ told := by
  constructor
  · intro mem
    obtain ⟨w, there, same⟩ := List.mem_map.mp mem
    exact messageOwn same ▸ there
  · exact List.mem_map_of_mem

end Unknown

theorem memUnknownIn {place : Place} {fields : List String} {entries : Entries} {u : Unknown} :
    u ∈ unknownIn place fields entries ↔
      u.place = place ∧ u.key ∈ entries.map Prod.fst ∧ u.key ∉ fields := by
  simp only [unknownIn, List.mem_map, List.mem_mergeSort, List.mem_filter]
  constructor
  · rintro ⟨key, ⟨there, other⟩, rfl⟩
    exact ⟨rfl, there, by simpa using other⟩
  · rintro ⟨rfl, there, other⟩
    exact ⟨u.key, ⟨there, by simpa using other⟩, rfl⟩

theorem tableEntriesIff {value : Value} {entries : Entries} :
    tableEntries? value = some entries ↔
      ∃ origin, value = .table origin entries ∧ Toml.Entries.offeredDate? entries = none := by
  cases value with
  | table origin found =>
    cases date : Toml.Entries.offeredDate? found with
    | none =>
      simp only [tableEntries?, date, Option.isSome_none, Bool.false_eq_true, if_false,
        Option.some.injEq, Value.table.injEq]
      exact ⟨fun same => ⟨origin, ⟨rfl, same⟩, same ▸ date⟩, fun ⟨_, same, _⟩ => same.2⟩
    | some offered =>
      simp only [tableEntries?, date, Option.isSome_some, if_true, reduceCtorEq, false_iff,
        Value.table.injEq]
      rintro ⟨_, ⟨_, rfl⟩, none⟩
      rw [date] at none
      contradiction
  | _ => simp [tableEntries?]

def rulesTable? (document : Entries) : Option Entries :=
  (document.lookup "rules").bind tableEntries?

def customTables (rules : Entries) : List Entries :=
  (((rules.lookup "custom").bind items?).getD []).filterMap tableEntries?

def tablesAt (document : Entries) : Place → List Entries
  | .top => [document]
  | .rules => (rulesTable? document).toList
  | .custom => (rulesTable? document).toList.flatMap customTables

def toldAt (document : Entries) (place : Place) : List Unknown :=
  (tablesAt document place).flatMap (unknownIn place place.fields)

theorem memToldAt {document : Entries} {place : Place} {u : Unknown} :
    u ∈ toldAt document place ↔
      u.place = place ∧ ∃ entries ∈ tablesAt document place,
        u.key ∈ entries.map Prod.fst ∧ u.key ∉ place.fields := by
  simp only [toldAt, List.mem_flatMap, memUnknownIn]
  constructor
  · rintro ⟨entries, mem, own, there⟩
    exact ⟨own, entries, mem, there⟩
  · rintro ⟨own, entries, mem, there⟩
    exact ⟨entries, mem, own, there⟩

theorem unknownInCustomEq (value : Value) :
    unknownInCustom value =
      (((items? value).getD []).filterMap tableEntries?).flatMap
        (unknownIn .custom CustomRule.fields) := by
  unfold unknownInCustom
  cases items? value <;> rfl

theorem unknownKeysEq {document : Entries} (readable : Toml.entriesReadable document = true) :
    unknownKeys document =
      toldAt document .top ++ toldAt document .rules ++ toldAt document .custom := by
  have top : unknownIn .top Config.fields document = toldAt document .top := by
    simp [toldAt, tablesAt, Place.fields]
  have below : ((document.lookup "rules").map unknownInRules).getD [] =
      toldAt document .rules ++ toldAt document .custom := by
    simp only [toldAt, tablesAt, rulesTable?, Place.fields]
    cases document.lookup "rules" with
    | none => rfl
    | some value =>
      simp only [Option.map_some, Option.getD_some, Option.bind_some, unknownInRules]
      cases tableEntries? value with
      | none => rfl
      | some rules =>
        cases custom : rules.lookup "custom" with
        | none => simp [customTables, custom]
        | some array => simp [customTables, custom, unknownInCustomEq]
  rw [unknownKeys, if_pos readable, top, below, List.append_assoc]

theorem memUnknownKeys {document : Entries} {u : Unknown} :
    u ∈ unknownKeys document ↔
      Toml.entriesReadable document = true ∧ ∃ entries ∈ tablesAt document u.place,
        u.key ∈ entries.map Prod.fst ∧ u.key ∉ u.place.fields := by
  by_cases readable : Toml.entriesReadable document = true
  · rw [unknownKeysEq readable, List.mem_append, List.mem_append, memToldAt, memToldAt, memToldAt,
      and_iff_right readable]
    cases u with
    | mk place key => cases place <;> simp
  · simp [unknownKeys, readable]

inductive ReadAs (document : Entries) : Place → Entries → Prop where
  | top : ReadAs document .top document
  | rules {origin entries} (mem : ("rules", .table origin entries) ∈ document) :
      ReadAs document .rules entries
  | custom {value record array items origin entries} (rules : ("rules", value) ∈ document)
      (fields : record? RulesConfig.fields value = some record) (list : ("custom", array) ∈ record)
      (each : items? array = some items) (mem : .table origin entries ∈ items) :
      ReadAs document .custom entries

def StandsForDate (entries : Entries) : Prop := Toml.Entries.offeredDate? entries ≠ none

def HasRulesTable (document : Entries) : Prop :=
  ∃ origin rules, ("rules", .table origin rules) ∈ document ∧ ¬ StandsForDate rules

def InSight (document : Entries) : Place → Entries → Prop
  | .top, _ => True
  | .rules, entries => ¬ StandsForDate entries
  | .custom, entries => HasRulesTable document ∧ ¬ StandsForDate entries

theorem recordOfTable (fields : List String) (origin : Origin) (entries : Entries) :
    record? fields (.table origin entries) = some entries := rfl

theorem memRulesTable {document : Entries} (keyed : document.Keyed) {entries : Entries} :
    entries ∈ tablesAt document .rules ↔
      ∃ origin, ("rules", .table origin entries) ∈ document ∧ ¬ StandsForDate entries := by
  simp only [tablesAt, rulesTable?, Option.mem_toList, Option.bind_eq_some_iff, tableEntriesIff,
    StandsForDate, Ne, Classical.not_not]
  constructor
  · rintro ⟨value, found, origin, rfl, plain⟩
    exact ⟨origin, memOfLookup found, plain⟩
  · rintro ⟨origin, mem, plain⟩
    exact ⟨_, lookupOfMem keyed.distinct mem, origin, rfl, plain⟩

theorem memCustomTables {document entries : Entries} :
    entries ∈ tablesAt document .custom ↔
      ∃ rules ∈ tablesAt document .rules, ∃ array items origin,
        rules.lookup "custom" = some array ∧ items? array = some items ∧
        .table origin entries ∈ items ∧ ¬ StandsForDate entries := by
  simp only [tablesAt, customTables, List.mem_flatMap, List.mem_filterMap, tableEntriesIff]
  refine exists_congr fun rules => and_congr_right fun _ => ?_
  constructor
  · rintro ⟨value, mem, origin, rfl, plain⟩
    cases list : (rules.lookup "custom").bind items? with
    | none => simp [list] at mem
    | some items =>
      obtain ⟨array, found, each⟩ := Option.bind_eq_some_iff.mp list
      rw [list] at mem
      exact ⟨array, items, origin, found, each, mem, fun date => date plain⟩
  · rintro ⟨array, items, origin, found, each, mem, plain⟩
    refine ⟨_, ?_, origin, rfl, Classical.not_not.mp plain⟩
    rw [found, Option.bind_some, each]
    exact mem

theorem keyedRules {document : Entries} (keyed : document.Keyed) {entries : Entries}
    (mem : entries ∈ tablesAt document .rules) : entries.Keyed := by
  obtain ⟨origin, there, _⟩ := (memRulesTable keyed).mp mem
  exact Toml.Entries.keyedOfTable (keyed.each _ there)

theorem memTablesAt {document : Entries} (keyed : document.Keyed) {place : Place}
    {entries : Entries} :
    entries ∈ tablesAt document place ↔
      ReadAs document place entries ∧ InSight document place entries := by
  cases place with
  | top =>
    constructor
    · intro mem
      cases List.mem_singleton.mp mem
      exact ⟨.top, trivial⟩
    · rintro ⟨⟨⟩, _⟩
      exact List.mem_singleton.mpr rfl
  | rules =>
    rw [memRulesTable keyed]
    constructor
    · rintro ⟨origin, mem, plain⟩
      exact ⟨.rules mem, plain⟩
    · rintro ⟨read, plain⟩
      cases read with
      | rules mem => exact ⟨_, mem, plain⟩
  | custom =>
    rw [memCustomTables]
    constructor
    · rintro ⟨rules, own, array, items, origin, found, each, mem, plain⟩
      obtain ⟨outer, there, plainRules⟩ := (memRulesTable keyed).mp own
      have read := recordOfTable RulesConfig.fields outer rules
      exact ⟨.custom there read (memOfLookup found) each mem, ⟨outer, rules, there, plainRules⟩,
        plain⟩
    · rintro ⟨read, ⟨outer, rules, own, plainRules⟩, plain⟩
      cases read with
      | @custom value record array items origin _ there fields list each mem =>
        -- A document has one value for its rules, so the table in sight is the one that is read.
        have same : value = .table outer rules := by
          have first := lookupOfMem keyed.distinct there
          have second := lookupOfMem keyed.distinct own
          rw [first] at second
          exact Option.some.inj second
        rw [same, recordOfTable] at fields
        cases Option.some.inj fields
        have inside : rules ∈ tablesAt document .rules :=
          (memRulesTable keyed).mpr ⟨outer, own, plainRules⟩
        have found := lookupOfMem (keyedRules keyed inside).distinct list
        exact ⟨rules, inside, array, items, origin, found, each, mem, plain⟩

theorem parsedKeyed {text : String} {config : Config} {document : Entries}
    (read : Config.parse text = .ok (config, document)) :
    document.Keyed ∧ Config.decode document = .ok config := by
  unfold Config.parse at read
  split at read
  · contradiction
  · rename_i found parsed
    split at read
    · rename_i decoded
      cases read
      exact ⟨Toml.parseKeyed parsed, decoded⟩
    · contradiction

theorem ignoredKeysTold (text : String) (config : Config) (document : Entries)
    (read : Config.parse text = .ok (config, document)) (u : Unknown) :
    (u.message ∈ (unknownKeys document).map Unknown.message ↔ u ∈ unknownKeys document) ∧
    (u ∈ unknownKeys document ↔
      Toml.entriesReadable document = true ∧
      ∃ entries, ReadAs document u.place entries ∧ InSight document u.place entries ∧
        u.key ∈ entries.map Prod.fst ∧ u.place.Ignores u.key) := by
  refine ⟨Unknown.memMessages, ?_⟩
  rw [memUnknownKeys]
  refine and_congr_right fun _ => exists_congr fun entries => ?_
  rw [memTablesAt (parsedKeyed read).1, Place.ignoresIff, and_assoc]

theorem parsedWith {text : String} {holds : Config → Entries → Prop} (test : Entries → Bool)
    (passes : (Config.parse text).toOption.any (fun read => test read.2) = true)
    (gives : ∀ config document, Config.parse text = .ok (config, document) →
      test document = true → holds config document) :
    ∃ config document, Config.parse text = .ok (config, document) ∧ holds config document := by
  cases read : Config.parse text with
  | error e =>
    rw [read] at passes
    cases passes
  | ok pair =>
    rw [read] at passes
    exact ⟨pair.1, pair.2, rfl, gives pair.1 pair.2 read passes⟩

theorem ignoredKeysToldLater :
    ∃ config document,
      Config.parse ("[[rules.custom]]\nname = \"x\"\nlanguage = \"rust\"\n" ++
        "[[rules.custom]]\nname = \"y\"\nlanguage = \"rust\"\ntag = 3\n") =
          .ok (config, document) ∧
      "Unknown config option in [[rules.custom]]: 'tag'" ∈
        (unknownKeys document).map Unknown.message := by
  refine parsedWith (fun document => Toml.entriesReadable document &&
    (tablesAt document .custom).any fun entries => (entries.map Prod.fst).contains "tag")
    (by decide +kernel) fun config document read shown => ?_
  obtain ⟨readable, some⟩ := Bool.and_eq_true_iff.mp shown
  obtain ⟨entries, listed, there⟩ := List.any_eq_true.mp some
  obtain ⟨own, sight⟩ := (memTablesAt (parsedKeyed read).1).mp listed
  obtain ⟨worded, told⟩ := ignoredKeysTold _ config document read ⟨.custom, "tag"⟩
  exact worded.mpr (told.mpr ⟨readable, entries, own, sight, List.contains_iff_mem.mp there,
    Place.ignoresOther (by decide)⟩)

def customItems (document : Entries) : List Value :=
  ((((document.lookup "rules").bind (record? RulesConfig.fields)).bind fun record =>
    record.lookup "custom").bind items?).getD []

theorem customItemsRead {document entries : Entries}
    (mem : entries ∈ (customItems document).filterMap tableEntries?) :
    ReadAs document .custom entries := by
  obtain ⟨value, listed, table⟩ := List.mem_filterMap.mp mem
  obtain ⟨origin, rfl, _⟩ := tableEntriesIff.mp table
  unfold customItems at listed
  cases found : ((((document.lookup "rules").bind (record? RulesConfig.fields)).bind fun record =>
    record.lookup "custom").bind items?) with
  | none => simp [found] at listed
  | some items =>
    obtain ⟨array, own, each⟩ := Option.bind_eq_some_iff.mp found
    obtain ⟨record, own, list⟩ := Option.bind_eq_some_iff.mp own
    obtain ⟨value, rules, fields⟩ := Option.bind_eq_some_iff.mp own
    rw [found] at listed
    exact .custom (memOfLookup rules) fields (memOfLookup list) each listed

/- Rules given by position: the key of a custom rule is passed over and nothing is told. -/
theorem positionalKeysUntold :
    ∃ config document,
      Config.parse ("rules = [[], [], \x7b\x7d, \x7b\x7d, " ++
        "[\x7bname = \"x\", language = \"python\", bogus = 1\x7d]]\n") =
          .ok (config, document) ∧
      (∃ entries, ReadAs document .custom entries ∧ "bogus" ∈ entries.map Prod.fst ∧
        Place.custom.Ignores "bogus") ∧
      unknownKeys document = [] := by
  refine parsedWith (fun document => (unknownKeys document).isEmpty &&
    ((customItems document).filterMap tableEntries?).any fun entries =>
      (entries.map Prod.fst).contains "bogus") (by decide +kernel) fun config document _ shown => ?_
  obtain ⟨silent, some⟩ := Bool.and_eq_true_iff.mp shown
  obtain ⟨entries, mem, there⟩ := List.any_eq_true.mp some
  exact ⟨⟨entries, customItemsRead mem, List.contains_iff_mem.mp there,
    Place.ignoresOther (by decide)⟩, List.isEmpty_iff.mp silent⟩

end SyntaxAudit
