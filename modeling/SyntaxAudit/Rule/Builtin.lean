import SyntaxAudit.Config
import SyntaxAudit.Rule.Basic
/-! Rules that need no code of their own, which report or count every node that they look at, and the
rules that come with the library. -/
namespace SyntaxAudit

def reportNode (p : Profile) (t : Tree) (n : Node t) : Outcome (List Finding) :=
  .ok [Finding.ofRule p.metadata n]

def countNodes (_ : Profile) (t : Tree) (nodes : List (Node t)) : Outcome (Groups (Node t)) :=
  .ok (Groups.ofList nodes)

namespace Rule

def declared (metadata : Metadata) : Rule where
  metadata
  hooks := { validateNode := reportNode, measureNodes := countNodes }

def ofCustom (c : CustomRule) : Rule :=
  declared
    { name := c.name
      category := c.category
      message := c.message
      suggestion := c.suggestion
      priority := c.priority
      context := Context.parse c.context
      language := c.language
      query := c.query
      regex := c.regex }

end Rule

namespace Builtin

def reporting : Hooks := { validateNode := reportNode }

def noPrint : Rule where
  metadata :=
    { name := "no-print"
      category := "quality"
      message := "Avoid print() in production code"
      suggestion := some "Use the logging module instead"
      priority := .medium
      context := .scanning
      language := .python
      query := some "((call function: (identifier) @target) (#eq? @target \"print\"))" }
  hooks := reporting

def noUnwrap : Rule where
  metadata :=
    { name := "no-unwrap"
      category := "quality"
      message := "Avoid unwrap(); it panics on None or Err"
      suggestion := some "Propagate the error with `?` or handle it explicitly"
      priority := .medium
      context := .scanning
      language := .rust
      query := some <|
        "((call_expression\n" ++
        "  function: (field_expression field: (field_identifier) @method)) @target\n" ++
        "  (#eq? @method \"unwrap\"))" }
  hooks := reporting

def noDebugger : Rule where
  metadata :=
    { name := "no-debugger"
      category := "quality"
      message := "Unexpected 'debugger' statement"
      suggestion := some "Remove the debugger statement"
      priority := .high
      context := .scanning
      language := .typescript
      query := some "(debugger_statement) @target" }
  hooks := reporting

def defaultMaxParameters : Nat := 5

def nonParameterKinds : List String := ["comment", "keyword_separator", "positional_separator"]

def maxParametersLimit (settings : Settings) : Nat :=
  (settings.natural? Text.wordLimit "max").getD defaultMaxParameters

def parameterCount {t : Tree} (parameters : Node t) : Nat :=
  (parameters.namedChildren.filter fun c => !nonParameterKinds.contains c.kind).length

def functionName {t : Tree} (parameters : Node t) : String :=
  ((parameters.parent?.bind fun f => Node.childByField? f "name").map Node.text).getD "<anonymous>"

def maxParameters : Rule where
  metadata :=
    { name := "max-parameters"
      category := "quality"
      message := "Function has too many parameters"
      suggestion := some "Group related parameters into an object"
      priority := .low
      context := .scanning
      language := .python
      query := some "(function_definition parameters: (parameters) @target)" }
  hooks :=
    { validateNode := fun p _ n =>
        let count := parameterCount n
        let limit := maxParametersLimit p.settings
        if count ≤ limit then .ok []
        else .ok [(Finding.ofRule p.metadata n).withMessage
          ("Function '" ++ functionName n ++ "' has " ++ Text.decimal count ++
            " parameters (max " ++ Text.decimal limit ++ ")")] }

def nonePattern : Nat := 0

def booleanPattern : Nat := 1

def ignoresBooleans (settings : Settings) : Bool := settings.get "ignore-booleans" == "true"

def isEquality (kind : String) : Bool := kind == "==" || kind == "!="

def equalityOperator? {t : Tree} (n : Node t) : Option String :=
  (([n.previousSibling?, n.nextSibling?].filterMap id).map Node.kind).find? isEquality

def identityFor (operator : String) : String := if operator = "==" then "is" else "is not"

def singletonComparison : Rule where
  metadata :=
    { name := "singleton-comparison"
      category := "quality"
      message := "Comparison to a singleton should use 'is'"
      priority := .medium
      context := .scanning
      language := .python
      query := some
        "(comparison_operator (none) @target)\n(comparison_operator [(true) (false)] @target)" }
  hooks :=
    { validateQuery := fun p _ query root capture _ =>
        .ok (query.resolve root capture (.pattern nonePattern) ++
          if ignoresBooleans p.settings then []
          else query.resolve root capture (.pattern booleanPattern))
      validateNode := fun p _ n =>
        match equalityOperator? n with
        | none => .ok []
        | some operator =>
            let replacement := identityFor operator
            .ok [((Finding.ofRule p.metadata n).withMessage
              ("Comparison to " ++ n.text ++ " should use '" ++ replacement ++ "'")).withSuggestion
              ("Replace '" ++ operator ++ "' with '" ++ replacement ++ "'")] }

def commentText (comment : String) : String :=
  String.ofList (Text.trimmed (comment.toList.dropWhile (· == '#')))

def todoComment : Rule where
  metadata :=
    { name := "todo-comment"
      category := "quality"
      message := "Unresolved marker comment"
      suggestion := some "Resolve the comment or track it in an issue"
      priority := .low
      context := .scanning
      language := .python
      query := some "(comment) @target"
      regex := some "\\b(TODO|FIXME|XXX)\\b" }
  hooks :=
    { validateNode := fun p _ n =>
        .ok [(Finding.ofRule p.metadata n).withMessage
          ("Unresolved marker comment: " ++ commentText n.text)] }

def repeats {t : Tree} : List String → List (Node t) → List (Node t)
  | _, [] => []
  | seen, n :: rest =>
      if n.text ∈ seen then n :: repeats seen rest else repeats (n.text :: seen) rest

def duplicateImport : Rule where
  metadata :=
    { name := "duplicate-import"
      category := "quality"
      message := "Module is imported more than once"
      suggestion := some "Remove the repeated import"
      priority := .medium
      context := .scanning
      language := .python
      query := some "(import_statement name: (dotted_name) @target)" }
  hooks :=
    { validateNodes := fun p _ nodes =>
        .ok ((repeats [] nodes).map fun n =>
          (Finding.ofRule p.metadata n).withMessage
            ("'" ++ n.text ++ "' is imported more than once")) }

def counting : Hooks := { measureNodes := countNodes }

def statementCounts : Rule where
  metadata :=
    { name := "statement-counts"
      category := "metrics"
      message := "Control-flow statements by kind"
      priority := .low
      context := .measuring
      language := .python
      query := some <|
        "[(if_statement) (for_statement) (while_statement) (try_statement) (with_statement) " ++
        "(return_statement)] @target" }
  hooks := counting

def definitionCounts : Rule where
  metadata :=
    { name := "definition-counts"
      category := "metrics"
      message := "Function and class definitions"
      priority := .low
      context := .measuring
      language := .python
      query := some "[(function_definition) (class_definition)] @target" }
  hooks := counting

def rules : List Rule :=
  [noPrint, maxParameters, singletonComparison, todoComment, duplicateImport, noUnwrap,
    noDebugger, statementCounts, definitionCounts]

end Builtin

end SyntaxAudit
