import SyntaxAudit.Registry
/-! Scanning and measuring source files. Queries and patterns are compiled by others; what is used of them
is that the outcome depends on the source alone, and for queries on the language. Each enabled rule
contributes on its own: what it finds, or one fault if one of its hooks fails. -/
namespace SyntaxAudit

structure SourceFile where
  name : String
  language : Language
  tree : Tree
  deriving DecidableEq, Repr

def Language.ofPath? (p : Path) : Option Language :=
  p.extension?.bind fun e => Language.ofExtension? (String.ofList e)

def unknownLanguage (name : String) : String :=
  "could not determine language for '" ++ name ++ "'"

structure SyntaxError where
  message : String
  position : Position
  deriving DecidableEq, Repr

def Node.syntaxError {t : Tree} (n : Node t) : SyntaxError :=
  ⟨if n.row.isError then "syntax error" else "missing " ++ n.kind, n.start⟩

namespace SourceFile

def hasErrors (f : SourceFile) : Bool := f.tree.root.row.hasError

def errors (f : SourceFile) : List SyntaxError := f.tree.root.faulty.map Node.syntaxError

end SourceFile

abbrev CompiledQuery := (t : Tree) → Query (Node t)

structure Compilers where
  query : Language → String → Except String CompiledQuery
  regex : String → Except String (String → Bool)

inductive EngineError where
  | query (rule : String) (language : Language) (cause : String)
  | regex (rule : String) (cause : String)
  deriving DecidableEq, Repr

def queryMessage (language : Language) (cause : String) : String :=
  "invalid " ++ language.name ++ " query: " ++ cause

def EngineError.message : EngineError → String
  | .query rule language cause => "rule '" ++ rule ++ "': " ++ queryMessage language cause
  | .regex rule cause => "rule '" ++ rule ++ "' has an invalid regex: " ++ cause

structure CompiledRule where
  queries : List (Language × CompiledQuery) := []
  regex : Option (String → Bool) := none

namespace CompiledRule

def compileFor (c : Compilers) (r : Rule) (source : String) (dialect : Language) :
    Except EngineError (Language × CompiledQuery) :=
  match c.query dialect source with
  | .ok query => .ok (dialect, query)
  | .error cause => .error (.query r.name dialect cause)

def compileQueries (c : Compilers) (r : Rule) :
    Except EngineError (List (Language × CompiledQuery)) :=
  match r.metadata.query with
  | some source => r.metadata.language.dialects.mapM (compileFor c r source)
  | none => .ok []

def compileRegex (c : Compilers) (r : Rule) : Except EngineError (Option (String → Bool)) :=
  match r.metadata.regex with
  | some pattern =>
      match c.regex pattern with
      | .ok accepts => .ok (some accepts)
      | .error cause => .error (.regex r.name cause)
  | none => .ok none

def compile (c : Compilers) (r : Rule) : Except EngineError CompiledRule := do
  let queries ← compileQueries c r
  let regex ← compileRegex c r
  .ok ⟨queries, regex⟩

def queryFor? (c : CompiledRule) (language : Language) : Option CompiledQuery :=
  c.queries.lookup language

end CompiledRule

structure Engine where
  registry : Registry
  compiled : List CompiledRule

namespace Engine

def build (c : Compilers) (g : Registry) : Except EngineError Engine := do
  let compiled ← g.enabledRules.mapM (CompiledRule.compile c)
  .ok ⟨g, compiled⟩

def ofConfig (c : Compilers) (config : Config) : Except EngineError Engine :=
  build c (Registry.builtin.configure config.rules)

def active (e : Engine) : List (Rule × CompiledRule) := e.registry.enabledRules.zip e.compiled

end Engine

def keepAccepted {t : Tree} (regex : Option (String → Bool)) (nodes : List (Node t)) :
    List (Node t) :=
  match regex with
  | some accepts => nodes.filter fun n => accepts n.text
  | none => nodes

def candidates (r : Rule) (c : CompiledRule) (file : SourceFile) :
    Outcome (List (Node file.tree)) := do
  let root ← r.preFilter file.tree.root
  let root ← r.validateRoot root
  match c.queryFor? file.language, c.regex with
  | some query, regex => do
      let nodes ← r.validateQuery (query file.tree) root none .all
      .ok (keepAccepted regex nodes)
  | none, some accepts => .ok (Node.innermost accepts root)
  | none, none => .ok [root]

structure ScanReport where
  file : String
  results : List Finding
  faults : List Fault
  deriving DecidableEq, Repr

structure Measurement (t : Tree) where
  rule : String
  groups : Groups (Node t)
  deriving DecidableEq, Repr

structure MeasureReport (t : Tree) where
  file : String
  measurements : List (Measurement t)
  faults : List Fault
  deriving DecidableEq, Repr

def MeasureReport.get? {t : Tree} (m : MeasureReport t) (rule : String) :
    Option (Groups (Node t)) :=
  (m.measurements.find? fun x => x.rule == rule).map Measurement.groups

def Failure.toFault (e : Failure) (r : Rule) (file : SourceFile) : Fault :=
  ⟨r.name, file.name, e.text⟩

def findings (r : Rule) (c : CompiledRule) (file : SourceFile) : Outcome (List Finding) := do
  let nodes ← candidates r c file
  let together ← r.validateNodes nodes
  let each ← nodes.mapM r.validateNode
  .ok (together ++ each.flatten)

def measured (r : Rule) (c : CompiledRule) (file : SourceFile) :
    Outcome (Groups (Node file.tree)) := do
  let nodes ← candidates r c file
  r.measureNodes nodes

def completed (override : Option Priority) (file : SourceFile) (f : Finding) : Finding :=
  let f := match override with
    | some p => f.withPriority p
    | none => f
  { f with file := some (f.file.getD file.name) }

structure Contribution (α : Type) where
  results : List α := []
  faults : List Fault := []

def scanRule (g : Registry) (file : SourceFile) (r : Rule) (c : CompiledRule) :
    Contribution Finding :=
  if r.metadata.context.scan && r.metadata.language.covers file.language then
    match findings r c file with
    | .ok found => { results := found.map (completed (g.override? r.name) file) }
    | .error e => { faults := [e.toFault r file] }
  else {}

def measureRule (file : SourceFile) (r : Rule) (c : CompiledRule) :
    Contribution (Measurement file.tree) :=
  if r.metadata.context.measure && r.metadata.language.covers file.language then
    match measured r c file with
    | .ok groups => { results := [⟨r.name, groups⟩] }
    | .error e => { faults := [e.toFault r file] }
  else {}

namespace Engine

def scan (e : Engine) (file : SourceFile) : ScanReport :=
  let parts := e.active.map fun rc => scanRule e.registry file rc.1 rc.2
  ⟨file.name, parts.flatMap Contribution.results, parts.flatMap Contribution.faults⟩

def measure (e : Engine) (file : SourceFile) : MeasureReport file.tree :=
  let parts := e.active.map fun rc => measureRule file rc.1 rc.2
  ⟨file.name, parts.flatMap Contribution.results, parts.flatMap Contribution.faults⟩

def scanAll (e : Engine) (files : List SourceFile) : List ScanReport := files.map e.scan

end Engine

-- Answers of the compilers kept for a batch of files. What was never asked compiles and finds nothing.
structure Run where
  tree : Tree
  root : Node tree
  found : List (Match (Node tree))
  captured : List (Capture (Node tree))

structure KeptQuery where
  patternCount : Nat
  names : List String
  runs : List Run

structure Recording where
  queries : List ((Language × String) × Except String KeptQuery) := []
  patterns : List (String × Except String (List String)) := []

def Run.on? (run : Run) (t : Tree) (root : Node t) :
    Option (List (Match (Node t)) × List (Capture (Node t))) :=
  if h : run.tree = t then
    if run.root.val = root.val then some (h ▸ (run.found, run.captured)) else none
  else none

def KeptQuery.query (k : KeptQuery) : CompiledQuery := fun t =>
  let answer := fun root => (k.runs.findSome? fun run => run.on? t root).getD ([], [])
  { patternCount := k.patternCount
    names := k.names
    findMatches := fun root => (answer root).1
    findCaptures := fun root => (answer root).2 }

def Recording.query (r : Recording) (language : Language) (source : String) :
    Except String KeptQuery :=
  (r.queries.lookup (language, source)).getD (.ok ⟨0, [], []⟩)

def Recording.compilers (r : Recording) : Compilers where
  query language source := (r.query language source).map KeptQuery.query
  regex pattern :=
    ((r.patterns.lookup pattern).getD (.ok [])).map fun texts text => texts.contains text

end SyntaxAudit
