import SyntaxAudit.Rule.Builtin
/-! The registry of rules. Configuring it first takes back what the configuration before had done:
its custom rules go, and the settings that it overwrote return. -/
namespace SyntaxAudit

structure Overwritten where
  rule : String
  key : String
  previous : Option String
  deriving DecidableEq, Repr

structure Registry where
  rules : List Rule := []
  enabled : List String := []
  disabled : List String := []
  overrides : List (String × Priority) := []
  customNames : List String := []
  overwritten : List Overwritten := []

def updateFirst (name : String) (change : Rule → Rule) : List Rule → List Rule
  | [] => []
  | r :: rest => if r.name = name then change r :: rest else r :: updateFirst name change rest

def addNew (rules : List Rule) : List Rule → List Rule × Nat
  | [] => (rules, 0)
  | r :: rest =>
      if rules.any (·.name == r.name) then addNew rules rest
      else
        let (all, count) := addNew (rules ++ [r]) rest
        (all, count + 1)

namespace Registry

def empty : Registry := {}

def get? (g : Registry) (name : String) : Option Rule := g.rules.find? fun r => r.name == name

def update (g : Registry) (name : String) (change : Rule → Rule) : Registry :=
  { g with rules := updateFirst name change g.rules }

def register (g : Registry) (r : Rule) : Registry := { g with rules := g.rules ++ [r] }

def registerNew (g : Registry) (rules : List Rule) : Registry × Nat :=
  let (all, count) := addNew g.rules rules
  ({ g with rules := all }, count)

def builtin : Registry := (empty.registerNew Builtin.rules).1

def size (g : Registry) : Nat := g.rules.length

def isEmpty (g : Registry) : Bool := g.rules.isEmpty

def allows (g : Registry) (name : String) : Bool :=
  (g.enabled.isEmpty || g.enabled.contains name) && !g.disabled.contains name

def enabledRules (g : Registry) : List Rule := g.rules.filter fun r => g.allows r.name

def isEnabled (g : Registry) (name : String) : Bool :=
  (g.get? name).any fun r => g.allows r.name

def override? (g : Registry) (name : String) : Option Priority := g.overrides.lookup name

def priorityOf (g : Registry) (r : Rule) : Priority := (g.override? r.name).getD r.metadata.priority

def restore (g : Registry) (o : Overwritten) : Registry :=
  g.update o.rule fun r =>
    match o.previous with
    | some value => r.set o.key value
    | none => r.unset o.key

def reset (g : Registry) : Registry :=
  let restored := g.overwritten.reverse.foldl restore g
  { rules := restored.rules.filter fun r => !g.customNames.contains r.name }

def overwrite (name : String) (g : Registry) (option : String × OptionValue) : Registry :=
  match g.get? name with
  | none => g
  | some r =>
      { g.update name (fun r => r.set option.1 option.2.text) with
        overwritten := g.overwritten ++ [⟨name, option.1, r.settings.get? option.1⟩] }

def applyOptions (g : Registry) (options : String × List (String × OptionValue)) : Registry :=
  options.2.foldl (overwrite options.1) g

def configure (g : Registry) (c : RulesConfig) : Registry :=
  let base := g.reset
  let rules := (addNew base.rules (c.custom.map Rule.ofCustom)).1
  c.options.foldl applyOptions
    { rules
      enabled := c.enabled
      disabled := c.disabled
      overrides := c.priority
      customNames := (rules.drop base.rules.length).map Rule.name }

end Registry

end SyntaxAudit
