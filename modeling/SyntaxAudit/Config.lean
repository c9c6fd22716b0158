import SyntaxAudit.Files
import SyntaxAudit.Rule.Metadata
import SyntaxAudit.Toml.Document
/-! The configuration of the rules, how it is read off a document, and how that of a directory is found:
in its own configuration file, or in that of the nearest directory above it that has one. Keys are taken
in document order, the first mistake ends the reading, and keys that name no field are passed over and
told by place. An array stands for a record whose fields it lists in their order. -/
namespace SyntaxAudit

inductive OptionValue where
  | boolean (b : Bool)
  | integer (n : Int)
  | float (x : Float)
  | string (text : String)
  deriving Repr

def OptionValue.text : OptionValue → String
  | .boolean b => Text.boolean b
  | .integer n => Text.integer n
  | .float x => Decimal.positional x
  | .string text => text

structure CustomRule where
  name : String
  language : Language
  query : Option String := none
  regex : Option String := none
  message : String := ""
  suggestion : Option String := none
  priority : Priority := .low
  context : String := "scan"
  category : String := "custom"
  deriving DecidableEq, Repr

structure RulesConfig where
  enabled : List String := []
  disabled : List String := []
  priority : List (String × Priority) := []
  options : List (String × List (String × OptionValue)) := []
  custom : List CustomRule := []
  deriving Repr

structure Config where
  rules : RulesConfig := {}
  deriving Repr

namespace RulesConfig

def isDefault (c : RulesConfig) : Bool :=
  c.enabled.isEmpty && c.disabled.isEmpty && c.priority.isEmpty && c.options.isEmpty &&
    c.custom.isEmpty

end RulesConfig

open Toml (Value Entries)

inductive Expected where
  | rules
  | customRule
  | sequence
  | map
  | string
  | priority
  deriving DecidableEq, Repr

def Expected.name : Expected → String
  | .rules => "struct RulesConfig"
  | .customRule => "struct CustomRuleConfig"
  | .sequence => "a sequence"
  | .map => "a map"
  | .string => "a string"
  | .priority => "u32"

inductive LanguageForm where
  | notTable
  | noEntry
  | manyEntries
  | filledTable
  | filledTables
  | scalar (typeName : String)
  deriving DecidableEq, Repr

def LanguageForm.message : LanguageForm → String
  | .notTable => "wanted string or table"
  | .noEntry => "wanted exactly 1 element, found 0 elements"
  | .manyEntries => "wanted exactly 1 element, more than 1 element"
  | .filledTable => "expected empty table"
  | .filledTables => "expected empty array"
  | .scalar typeName => "expected table, found " ++ typeName

inductive DecodeError where
  | wrongType (found : Value) (expected : Expected)
  | outOfRange (n : Int)
  | missingField (name : String)
  | tooShort (length : Nat)
  | unknownLanguage (name : String)
  | languageForm (form : LanguageForm)
  | optionForm

def found : Value → String
  | .string s => "string " ++ Text.quoted s
  | .integer n => "integer `" ++ Text.integer n ++ "`"
  | .float x => "floating point `" ++ Decimal.pointed x ++ "`"
  | .boolean b => "boolean `" ++ Text.boolean b ++ "`"
  | .array _ | .tables _ => "sequence"
  | .datetime _ | .table _ _ => "map"

def CustomRule.fields : List String :=
  ["name", "language", "query", "regex", "message", "suggestion", "priority", "context",
    "category"]

def RulesConfig.fields : List String := ["enabled", "disabled", "priority", "options", "custom"]

def Config.fields : List String := ["rules"]

def DecodeError.message : DecodeError → String
  | .wrongType value expected =>
      "invalid type: " ++ found value ++ ", expected " ++ expected.name
  | .outOfRange n =>
      "invalid value: integer `" ++ Text.integer n ++ "`, expected " ++ Expected.priority.name
  | .missingField name => "missing field `" ++ name ++ "`"
  | .tooShort length =>
      "invalid length " ++ Text.decimal length ++ ", expected " ++ Expected.customRule.name ++
        " with " ++ Text.decimal CustomRule.fields.length ++ " elements"
  | .unknownLanguage name =>
      "unknown variant `" ++ name ++ "`, expected one of " ++
        ", ".intercalate (Language.all.map fun l => "`" ++ l.name ++ "`")
  | .languageForm form => form.message
  | .optionForm => "data did not match any variant of untagged enum OptionValue"

def entries? : Value → Option Entries
  | .table _ entries => some entries
  | .datetime d => some [(Toml.dateKey, .string d.text)]
  | _ => none

def items? : Value → Option (List Value)
  | .array items | .tables items => some items
  | _ => none

def record? (fields : List String) (value : Value) : Option Entries :=
  (entries? value).or ((items? value).map fields.zip)

def decodeString : Value → Except DecodeError String
  | .string s => .ok s
  | value => .error (.wrongType value .string)

def decodePriority : Value → Except DecodeError Priority
  | .integer n =>
      if 0 ≤ n ∧ n < Priority.limit then .ok ⟨n.toNat⟩ else .error (.outOfRange n)
  | value => .error (.wrongType value .priority)

def decodeList {α : Type} (item : Value → Except DecodeError α) (value : Value) :
    Except DecodeError (List α) :=
  match items? value with
  | some items => items.mapM item
  | none => .error (.wrongType value .sequence)

def decodeMap {α : Type} (item : Value → Except DecodeError α) (value : Value) :
    Except DecodeError (List (String × α)) :=
  match entries? value with
  | some entries => entries.mapM fun e => (item e.2).map (e.1, ·)
  | none => .error (.wrongType value .map)

def decodeOption : Value → Except DecodeError OptionValue
  | .boolean b => .ok (.boolean b)
  | .integer n => .ok (.integer n)
  | .float x => .ok (.float x)
  | .string s => .ok (.string s)
  | _ => .error .optionForm

def languageNamed (name : String) : Except DecodeError Language :=
  match Language.ofName? name with
  | some language => .ok language
  | none => .error (.unknownLanguage name)

def decodeEmpty : Value → Except DecodeError Unit
  | .array [] | .tables [] | .table _ [] => .ok ()
  | .tables _ => .error (.languageForm .filledTables)
  | .array _ | .table _ _ => .error (.languageForm .filledTable)
  | value => .error (.languageForm (.scalar value.typeName))

def decodeLanguage : Value → Except DecodeError Language
  | .string name => languageNamed name
  | .table _ [] => .error (.languageForm .noEntry)
  | .table _ [(name, value)] => do
      let language ← languageNamed name
      decodeEmpty value
      .ok language
  | .table _ _ => .error (.languageForm .manyEntries)
  | _ => .error (.languageForm .notTable)

structure CustomRule.Draft where
  name : Option String := none
  language : Option Language := none
  query : Option String := none
  regex : Option String := none
  message : String := ""
  suggestion : Option String := none
  priority : Priority := .low
  context : String := "scan"
  category : String := "custom"

def CustomRule.Draft.set (d : Draft) (key : String) (value : Value) :
    Except DecodeError Draft :=
  match key with
  | "name" => (decodeString value).map fun x => { d with name := some x }
  | "language" => (decodeLanguage value).map fun x => { d with language := some x }
  | "query" => (decodeString value).map fun x => { d with query := some x }
  | "regex" => (decodeString value).map fun x => { d with regex := some x }
  | "message" => (decodeString value).map fun x => { d with message := x }
  | "suggestion" => (decodeString value).map fun x => { d with suggestion := some x }
  | "priority" => (decodePriority value).map fun x => { d with priority := x }
  | "context" => (decodeString value).map fun x => { d with context := x }
  | "category" => (decodeString value).map fun x => { d with category := x }
  | _ => .ok d

def CustomRule.Draft.finish (d : Draft) (missing : String → DecodeError) :
    Except DecodeError CustomRule :=
  match d.name, d.language with
  | some name, some language =>
      .ok ⟨name, language, d.query, d.regex, d.message, d.suggestion, d.priority, d.context,
        d.category⟩
  | none, _ => .error (missing "name")
  | some _, none => .error (missing "language")

def decodeCustomRule (value : Value) : Except DecodeError CustomRule :=
  match record? CustomRule.fields value with
  | some entries => do
      let draft ← entries.foldlM (fun (d : CustomRule.Draft) e => d.set e.1 e.2) {}
      draft.finish fun name =>
        match items? value with
        | some items => .tooShort items.length
        | none => .missingField name
  | none => .error (.wrongType value .customRule)

def RulesConfig.set (c : RulesConfig) (key : String) (value : Value) :
    Except DecodeError RulesConfig :=
  match key with
  | "enabled" => (decodeList decodeString value).map fun x => { c with enabled := x }
  | "disabled" => (decodeList decodeString value).map fun x => { c with disabled := x }
  | "priority" => (decodeMap decodePriority value).map fun x => { c with priority := x }
  | "options" => (decodeMap (decodeMap decodeOption) value).map fun x => { c with options := x }
  | "custom" => (decodeList decodeCustomRule value).map fun x => { c with custom := x }
  | _ => .ok c

def decodeRules (value : Value) : Except DecodeError RulesConfig :=
  match record? RulesConfig.fields value with
  | some entries => entries.foldlM (fun c e => RulesConfig.set c e.1 e.2) {}
  | none => .error (.wrongType value .rules)

def Config.set (c : Config) (key : String) (value : Value) : Except DecodeError Config :=
  match key with
  | "rules" => (decodeRules value).map fun x => { c with rules := x }
  | _ => .ok c

def Config.decode (document : Entries) : Except DecodeError Config :=
  document.foldlM (fun c e => Config.set c e.1 e.2) {}

inductive Place where
  | top
  | rules
  | custom
  deriving DecidableEq, Repr

structure Unknown where
  place : Place
  key : String
  deriving DecidableEq, Repr

def Place.heading : Place → String
  | .top => "Unknown config option"
  | .rules => "Unknown config option in [rules]"
  | .custom => "Unknown config option in [[rules.custom]]"

def Unknown.message (u : Unknown) : String := u.place.heading ++ ": '" ++ u.key ++ "'"

def unknownIn (place : Place) (fields : List String) (entries : Entries) : List Unknown :=
  let keys := (entries.map Prod.fst).filter fun key => !fields.contains key
  (keys.mergeSort (fun a b => decide (a ≤ b))).map fun key => ⟨place, key⟩

def tableEntries? : Value → Option Entries
  | .table _ entries => if (Toml.Entries.offeredDate? entries).isSome then none else some entries
  | _ => none

def unknownInCustom (value : Value) : List Unknown :=
  match items? value with
  | some items =>
      (items.filterMap tableEntries?).flatMap (unknownIn .custom CustomRule.fields)
  | none => []

def unknownInRules (value : Value) : List Unknown :=
  match tableEntries? value with
  | some entries =>
      unknownIn .rules RulesConfig.fields entries ++
        ((entries.lookup "custom").map unknownInCustom).getD []
  | none => []

def unknownKeys (document : Entries) : List Unknown :=
  if Toml.entriesReadable document then
    unknownIn .top Config.fields document ++
      ((document.lookup "rules").map unknownInRules).getD []
  else []

inductive ConfigError where
  | malformed
  | decode (e : DecodeError)

def Config.parse (text : String) : Except ConfigError (Config × Toml.Entries) :=
  match Toml.parse? text with
  | none => .error .malformed
  | some document =>
      match Config.decode document with
      | .ok config => .ok (config, document)
      | .error e => .error (.decode e)

def Config.ofText (text : String) : Except ConfigError Config := (Config.parse text).map Prod.fst

inductive LoadError where
  | read (path : Path) (e : ReadError)
  | parse (path : Path) (e : ConfigError)

def LoadError.path : LoadError → Path
  | .read path _ | .parse path _ => path

def LoadError.message? : LoadError → Option String
  | .read path e =>
      some ("Failed to read config file '" ++ path.toString ++ "': " ++ e.message)
  | .parse path (.decode e) =>
      some ("Invalid TOML in '" ++ path.toString ++ "': " ++ e.message)
  | .parse _ .malformed => none

structure Loaded where
  config : Config := {}
  unknown : List Unknown := []

def Loaded.warnings (l : Loaded) : List String := l.unknown.map Unknown.message

def configFileName : Path := Path.ofString "quarry.toml"

def ancestors : Nat → Path → List Path
  | 0, directory => [directory]
  | fuel + 1, directory =>
      match directory.parent? with
      | some parent => directory :: ancestors fuel parent
      | none => [directory]

def findConfigFile (fs : FileSystem) (start : Path) : Option Path :=
  ((ancestors start.text.length start).map fun d => d.join configFileName).find? fs.holds

def loadWithUnknown (fs : FileSystem) (path : Path) : Except LoadError Loaded :=
  match fs.read path with
  | .error e => .error (.read path e)
  | .ok text =>
      match Config.parse text with
      | .error e => .error (.parse path e)
      | .ok (config, document) => .ok ⟨config, unknownKeys document⟩

def load (fs : FileSystem) (path : Path) : Except LoadError Config :=
  (loadWithUnknown fs path).map Loaded.config

def loadOrDefaultWithUnknown (fs : FileSystem) (start : Path) : Loaded :=
  match findConfigFile fs start with
  | none => {}
  | some path =>
      match loadWithUnknown fs path with
      | .ok loaded => loaded
      | .error _ => {}

def loadOrDefault (fs : FileSystem) (start : Path) : Config :=
  match findConfigFile fs start with
  | none => {}
  | some path =>
      match load fs path with
      | .ok config => config
      | .error _ => {}

end SyntaxAudit
