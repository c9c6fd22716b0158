import SyntaxAudit.Rule.Basic
/-! Rules that follow a script: where to look, what to report, and at which hook to fail. They show
what a host does with each answer that a hook can give. -/
namespace SyntaxAudit

inductive HookName where
  | preFilter
  | validateRoot
  | validateQuery
  | validateNodes
  | validateNode
  | measureNodes
  deriving DecidableEq, Repr

def HookName.all : List HookName :=
  [.preFilter, .validateRoot, .validateQuery, .validateNodes, .validateNode, .measureNodes]

def HookName.name : HookName → String
  | .preFilter => "pre_filter"
  | .validateRoot => "validate_root"
  | .validateQuery => "validate_query"
  | .validateNodes => "validate_nodes"
  | .validateNode => "validate_node"
  | .measureNodes => "measure_nodes"

inductive FailureMode where
  | fixed
  | formatted
  | setting
  | unlabelled
  deriving DecidableEq, Repr

structure PlannedFailure where
  hook : HookName
  mode : FailureMode
  subject : Option String
  deriving DecidableEq, Repr

structure Script where
  preFilter : List Step := []
  validateRoot : List Step := []
  capture : Option String := none
  patterns : Option (List Selector) := none
  batch : Bool := false
  perNode : Nat := 1
  file : Option String := none
  suggestion : Option String := none
  priority : Option Priority := none
  failure : Option PlannedFailure := none
  deriving DecidableEq, Repr

namespace Script

def check (s : Script) (p : Profile) (hook : HookName) (subject : String) : Outcome Unit :=
  match s.failure with
  | none => .ok ()
  | some f =>
      if f.hook = hook ∧ (f.subject.isNone ∨ f.subject = some subject) then
        .error (match f.mode with
          | .fixed => .message "static panic"
          | .formatted => .message (hook.name ++ " cannot handle '" ++ subject ++ "'")
          | .setting => .message ("setting " ++ p.settings.get "panic-text")
          | .unlabelled => .unlabelled)
      else .ok ()

def finding (s : Script) (p : Profile) {t : Tree} (n : Node t) (message : String) : Finding :=
  let f := (Finding.ofRule p.metadata n).withMessage message
  { f with
    file := s.file
    suggestion := s.suggestion.or f.suggestion
    priority := s.priority.getD f.priority
    severity := (s.priority.getD f.priority).severity }

def goto {t : Tree} (steps : List Step) (root : Node t) : Node t :=
  (Node.follow? root steps).getD root

def hooks (s : Script) : Hooks where
  preFilter p _ root := do
    s.check p .preFilter root.text
    .ok (goto s.preFilter root)
  validateRoot p _ root := do
    s.check p .validateRoot root.text
    .ok (goto s.validateRoot root)
  validateQuery p _ query root capture selector := do
    s.check p .validateQuery root.text
    .ok ((s.patterns.getD [selector]).flatMap (query.resolve root (s.capture.or capture)))
  validateNodes p _ nodes := do
    s.check p .validateNodes (Text.decimal nodes.length)
    match s.batch, nodes with
    | true, first :: _ => .ok [s.finding p first ("batch:" ++ Text.decimal nodes.length)]
    | _, _ => .ok []
  validateNode p _ n := do
    s.check p .validateNode n.text
    .ok ((List.range s.perNode).map fun i =>
      s.finding p n
        ("node:" ++ Text.decimal i ++ ":" ++ p.settings.get "tag" ++ ":" ++ n.kind))
  measureNodes p _ nodes := do
    s.check p .measureNodes (Text.decimal nodes.length)
    .ok (Groups.ofList nodes)

end Script

def Rule.scripted (metadata : Metadata) (script : Script) : Rule where
  metadata
  hooks := script.hooks

end SyntaxAudit
