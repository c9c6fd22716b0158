import SyntaxAudit.Rule.Metadata
import SyntaxAudit.Tree
/-! Rules: what they declare, what they are set to, and the hooks that a host calls in a fixed order.
A hook sees its rule's metadata and settings and its arguments, nothing else. It may fail. -/
namespace SyntaxAudit

structure Capture (N : Type) where
  name : String
  node : N
  deriving DecidableEq, Repr

structure Match (N : Type) where
  pattern : Nat
  captures : List (Capture N)
  deriving DecidableEq, Repr

structure Query (N : Type) where
  patternCount : Nat
  names : List String
  findMatches : N → List (Match N)
  findCaptures : N → List (Capture N)

inductive Selector where
  | all
  | pattern (i : Nat)
  deriving DecidableEq, Repr

section

variable {N : Type}

def selectCaptures (captures : List (Capture N)) (name : String) : List N :=
  (captures.filter fun c => c.name = name).map Capture.node

def selectMatches (found : List (Match N)) (pattern : Nat) (name : String) : List N :=
  (found.filter fun m => m.pattern = pattern).flatMap fun m => selectCaptures m.captures name

inductive Search where
  | nothing
  | captures
  | matchesOf (pattern : Nat)
  deriving DecidableEq, Repr

def defaultCapture : String := "target"

namespace Query

def declares (q : Query N) (name : String) : Bool := q.names.contains name

def search (q : Query N) (name : String) (selector : Selector) : Search :=
  if q.declares name then
    match selector with
    | .all => .captures
    | .pattern i => if i < q.patternCount then .matchesOf i else .nothing
  else .nothing

def resolve (q : Query N) (root : N) (capture : Option String) (selector : Selector) : List N :=
  let name := capture.getD defaultCapture
  match q.search name selector with
  | .nothing => []
  | .captures => selectCaptures (q.findCaptures root) name
  | .matchesOf i => selectMatches (q.findMatches root) i name

end Query

end

class Kinded (N : Type) where
  kind : N → String

def pushEntry {N : Type} (kind : String) (n : N) : List (String × List N) → List (String × List N)
  | [] => [(kind, [n])]
  | (k, ns) :: rest =>
      if k = kind then (k, ns ++ [n]) :: rest else (k, ns) :: pushEntry kind n rest

theorem memKeysPushEntry {N : Type} {kind k : String} {n : N} {entries : List (String × List N)}
    (h : k ∈ (pushEntry kind n entries).map Prod.fst) :
    k = kind ∨ k ∈ entries.map Prod.fst := by
  induction entries with
  | nil => simpa [pushEntry] using h
  | cons head rest ih =>
    obtain ⟨k', ns⟩ := head
    simp only [pushEntry] at h
    split at h
    · exact .inr (by simpa using h)
    · rcases List.mem_cons.mp h with same | inside
      · exact .inr (by simp [same])
      · exact (ih inside).imp id (List.mem_cons_of_mem _)

theorem pushEntryNodup {N : Type} (kind : String) (n : N) {entries : List (String × List N)}
    (h : (entries.map Prod.fst).Nodup) : ((pushEntry kind n entries).map Prod.fst).Nodup := by
  induction entries with
  | nil => simp [pushEntry]
  | cons head rest ih =>
    obtain ⟨k, ns⟩ := head
    obtain ⟨fresh, tail⟩ := List.nodup_cons.mp h
    simp only [pushEntry]
    split
    · exact List.nodup_cons.mpr ⟨fresh, tail⟩
    · rename_i other
      refine List.nodup_cons.mpr ⟨fun mem => ?_, ih tail⟩
      exact (memKeysPushEntry mem).elim other fresh

structure Groups (N : Type) where
  entries : List (String × List N)
  nodup : (entries.map Prod.fst).Nodup
  deriving DecidableEq, Repr

def mapNodes {N M σ : Type} (f : N → σ → M × σ) : List N → σ → List M × σ
  | [], s => ([], s)
  | n :: ns, s =>
      let (m, s) := f n s
      let (ms, s) := mapNodes f ns s
      (m :: ms, s)

def mapEntries {N M σ : Type} (f : N → σ → M × σ) :
    List (String × List N) → σ → List (String × List M) × σ
  | [], s => ([], s)
  | (k, ns) :: rest, s =>
      let (ms, s) := mapNodes f ns s
      let (entries, s) := mapEntries f rest s
      ((k, ms) :: entries, s)

theorem mapEntriesKeys {N M σ : Type} (f : N → σ → M × σ) (entries : List (String × List N))
    (s : σ) : (mapEntries f entries s).1.map Prod.fst = entries.map Prod.fst := by
  induction entries generalizing s with
  | nil => rfl
  | cons head rest ih => simp [mapEntries, ih]

namespace Groups

variable {N M σ : Type}

def empty : Groups N := ⟨[], List.nodup_nil⟩

def push [Kinded N] (g : Groups N) (n : N) : Groups N :=
  ⟨pushEntry (Kinded.kind n) n g.entries, pushEntryNodup _ _ g.nodup⟩

def ofList [Kinded N] (ns : List N) : Groups N := ns.foldl push empty

def keys (g : Groups N) : List String := g.entries.map Prod.fst

def get? (g : Groups N) (kind : String) : Option (List N) := g.entries.lookup kind

def count (g : Groups N) (kind : String) : Nat := ((g.get? kind).map List.length).getD 0

def counts (g : Groups N) : List (String × Nat) := g.entries.map fun e => (e.1, e.2.length)

def total (g : Groups N) : Nat := (g.entries.flatMap Prod.snd).length

def size (g : Groups N) : Nat := g.entries.length

def isEmpty (g : Groups N) : Bool := g.entries.isEmpty

def mapWith (f : N → σ → M × σ) (g : Groups N) (s : σ) : Groups M × σ :=
  (⟨(mapEntries f g.entries s).1, by rw [mapEntriesKeys]; exact g.nodup⟩,
    (mapEntries f g.entries s).2)

def map (f : N → M) (g : Groups N) : Groups M := (g.mapWith (fun n s => (f n, s)) ()).1

def same [DecidableEq N] (g h : Groups N) : Bool :=
  g.size == h.size && g.entries.all fun e => h.get? e.1 == some e.2

end Groups

structure Finding where
  rule : String
  priority : Priority
  severity : Severity
  message : String
  suggestion : Option String
  node : Snapshot
  file : Option String
  deriving DecidableEq, Repr

namespace Finding

variable {t : Tree}

def new (rule : String) (priority : Priority) (message : String) (n : Node t) : Finding :=
  ⟨rule, priority, priority.severity, message, none, n.snapshot, none⟩

def ofRule (m : Metadata) (n : Node t) : Finding :=
  { new m.name m.priority m.message n with suggestion := m.suggestion }

def withMessage (f : Finding) (message : String) : Finding := { f with message }

def withSuggestion (f : Finding) (suggestion : String) : Finding :=
  { f with suggestion := some suggestion }

def withPriority (f : Finding) (priority : Priority) : Finding :=
  { f with priority, severity := priority.severity }

def withFile (f : Finding) (file : String) : Finding := { f with file := some file }

end Finding

structure Fault where
  rule : String
  file : String
  message : String
  deriving DecidableEq, Repr

instance {t : Tree} : Kinded (Node t) := ⟨Node.kind⟩

instance : Kinded Snapshot := ⟨Snapshot.kind⟩

inductive Failure where
  | message (text : String)
  | unlabelled
  deriving DecidableEq, Repr

def Failure.text : Failure → String
  | .message text => text
  | .unlabelled => "rule panicked"

abbrev Outcome := Except Failure

structure Profile where
  metadata : Metadata
  settings : Settings := .empty
  deriving DecidableEq, Repr

/-- The steps of a rule. Those that are not given do what most rules want: keep the root, take
the default capture of all patterns, and report and measure nothing. -/
structure Hooks where
  preFilter : Profile → (t : Tree) → Node t → Outcome (Node t) :=
    fun _ _ root => .ok root
  validateRoot : Profile → (t : Tree) → Node t → Outcome (Node t) :=
    fun _ _ root => .ok root
  validateQuery : Profile → (t : Tree) → Query (Node t) → Node t → Option String → Selector →
      Outcome (List (Node t)) :=
    fun _ _ query root capture selector => .ok (query.resolve root capture selector)
  validateNodes : Profile → (t : Tree) → List (Node t) → Outcome (List Finding) :=
    fun _ _ _ => .ok []
  validateNode : Profile → (t : Tree) → Node t → Outcome (List Finding) :=
    fun _ _ _ => .ok []
  measureNodes : Profile → (t : Tree) → List (Node t) → Outcome (Groups (Node t)) :=
    fun _ _ _ => .ok .empty

structure Rule extends Profile where
  hooks : Hooks := {}

namespace Rule

variable {t : Tree}

def name (r : Rule) : String := r.metadata.name

def set (r : Rule) (key value : String) : Rule := { r with settings := r.settings.set key value }

def unset (r : Rule) (key : String) : Rule := { r with settings := r.settings.erase key }

def preFilter (r : Rule) (root : Node t) : Outcome (Node t) :=
  r.hooks.preFilter r.toProfile t root

def validateRoot (r : Rule) (root : Node t) : Outcome (Node t) :=
  r.hooks.validateRoot r.toProfile t root

def validateQuery (r : Rule) (query : Query (Node t)) (root : Node t) (capture : Option String)
    (selector : Selector) : Outcome (List (Node t)) :=
  r.hooks.validateQuery r.toProfile t query root capture selector

def validateNodes (r : Rule) (nodes : List (Node t)) : Outcome (List Finding) :=
  r.hooks.validateNodes r.toProfile t nodes

def validateNode (r : Rule) (n : Node t) : Outcome (List Finding) :=
  r.hooks.validateNode r.toProfile t n

def measureNodes (r : Rule) (nodes : List (Node t)) : Outcome (Groups (Node t)) :=
  r.hooks.measureNodes r.toProfile t nodes

end Rule

end SyntaxAudit
