import SyntaxAudit.Text
/-! Syntax trees as rows in pre-order: the first row is the root, and the parent of any other row is the
row before it or one of that row's ancestors. A node is the number of its row. A child has a greater
number than its parent, so walks down a tree end. -/
namespace SyntaxAudit

structure Row where
  parent : Option Nat
  kind : String
  named : Bool
  isError : Bool
  isMissing : Bool
  hasError : Bool
  start : Nat
  stop : Nat
  field : Option String
  deriving DecidableEq, Repr

/-- The siblings of one node, where they are not the neighbouring children of its parent. -/
structure Neighbours where
  node : Nat
  previous : Option Nat
  next : Option Nat
  deriving DecidableEq, Repr

def chain (rows : Array Row) : Nat → Nat → List Nat
  | 0, _ => []
  | fuel + 1, i =>
      match rows[i]? with
      | some row =>
          match row.parent with
          | some p => i :: chain rows fuel p
          | none => [i]
      | none => []

def hangs (rows : Array Row) (i : Nat) (row : Row) : Prop :=
  match row.parent with
  | none => i = 0
  | some p => p < i ∧ p ∈ chain rows i (i - 1)

instance (rows : Array Row) (i : Nat) (row : Row) : Decidable (hangs rows i row) := by
  unfold hangs; split <;> infer_instance

def Preorder (rows : Array Row) : Prop :=
  0 < rows.size ∧ ∀ i, (h : i < rows.size) → hangs rows i rows[i]

instance (rows : Array Row) : Decidable (Preorder rows) := by
  unfold Preorder; infer_instance

structure Tree where
  source : String
  rows : Array Row
  exceptions : List Neighbours
  preorder : Preorder rows
  deriving DecidableEq, Repr

def Tree.ofRows? (source : String) (rows : Array Row) (exceptions : List Neighbours) :
    Option Tree :=
  if h : Preorder rows then some ⟨source, rows, exceptions, h⟩ else none

def Tree.size (t : Tree) : Nat := t.rows.size

abbrev Node (t : Tree) := Fin t.size

def Tree.root (t : Tree) : Node t := ⟨0, t.preorder.1⟩

def Tree.nodes (t : Tree) : List (Node t) := List.finRange t.size

def Tree.node? (t : Tree) (i : Nat) : Option (Node t) :=
  if h : i < t.size then some ⟨i, h⟩ else none

structure Position where
  line : Nat
  column : Nat
  deriving DecidableEq, Repr

namespace Position

def first : Position := ⟨1, 1⟩

def next (p : Position) (c : Char) : Position :=
  if c = '\n' then ⟨p.line + 1, 1⟩ else ⟨p.line, p.column + c.utf8Size⟩

def advance : List Char → Nat → Position → Position
  | [], _, p => p
  | c :: rest, bytes, p => if bytes = 0 then p else advance rest (bytes - c.utf8Size) (p.next c)

def ofOffset (source : String) (offset : Nat) : Position := advance source.toList offset first

end Position

structure Snapshot where
  kind : String
  startByte : Nat
  stopByte : Nat
  start : Position
  stop : Position
  text : String
  deriving DecidableEq, Repr

namespace Node

variable {t : Tree}

def row (n : Node t) : Row :=
  have : n.val < t.rows.size := n.isLt
  t.rows[n.val]

def kind (n : Node t) : String := n.row.kind

def named (n : Node t) : Bool := n.row.named

-- A range that ends before it starts or cuts a character has no text.
def text (n : Node t) : String :=
  String.ofList ((Text.slice? t.source.toList n.row.start n.row.stop).getD [])

def parent? (n : Node t) : Option (Node t) := n.row.parent.bind t.node?

def children (n : Node t) : List (Node t) :=
  t.nodes.filter fun c => c.row.parent == some n.val

def namedChildren (n : Node t) : List (Node t) := n.children.filter Node.named

def childByField? (n : Node t) (field : String) : Option (Node t) :=
  n.children.find? fun c => c.row.field == some field

def exception? (n : Node t) : Option Neighbours :=
  t.exceptions.find? fun e => e.node == n.val

def siblingsBefore (n : Node t) : List (Node t) :=
  match n.parent? with
  | some p => (p.children.filter fun c => c.val < n.val).reverse
  | none => []

def siblingsAfter (n : Node t) : List (Node t) :=
  match n.parent? with
  | some p => p.children.filter fun c => n.val < c.val
  | none => []

def previousSibling? (n : Node t) : Option (Node t) :=
  match n.exception? with
  | some e => e.previous.bind t.node?
  | none => n.siblingsBefore.head?

def nextSibling? (n : Node t) : Option (Node t) :=
  match n.exception? with
  | some e => e.next.bind t.node?
  | none => n.siblingsAfter.head?

def start (n : Node t) : Position := Position.ofOffset t.source n.row.start

def stop (n : Node t) : Position := Position.ofOffset t.source n.row.stop

def snapshot (n : Node t) : Snapshot :=
  ⟨n.kind, n.row.start, n.row.stop, n.start, n.stop, n.text⟩

def summary (n : Node t) : String :=
  n.kind ++ " [" ++ Text.decimal n.start.line ++ ":" ++ Text.decimal n.start.column ++ "] " ++
    Text.quoted n.text

theorem childrenFollow {n c : Node t} (h : c ∈ n.children) : n.val < c.val := by
  have parent : c.row.parent = some n.val := by
    simpa [children] using (List.mem_filter.mp h).2
  have rule : hangs t.rows c.val c.row := t.preorder.2 c.val c.isLt
  simp only [hangs, parent] at rule
  exact rule.1

theorem namedChildrenFollow {n c : Node t} (h : c ∈ n.namedChildren) : n.val < c.val :=
  childrenFollow (List.mem_filter.mp h).1

def namedDescendants (n : Node t) : List (Node t) :=
  n.namedChildren.attach.flatMap fun ⟨c, _h⟩ => c :: namedDescendants c
termination_by t.size - n.val
decreasing_by
  have := namedChildrenFollow _h
  have := c.isLt
  omega

def acceptedChildren (accepts : String → Bool) (n : Node t) : List (Node t) :=
  n.namedChildren.filter fun c => accepts c.text

def innermostFrom (accepts : String → Bool) (n : Node t) : List (Node t) :=
  if n.acceptedChildren accepts = [] then [n]
  else (n.acceptedChildren accepts).attach.flatMap fun ⟨c, _h⟩ => innermostFrom accepts c
termination_by t.size - n.val
decreasing_by
  have := namedChildrenFollow (List.mem_filter.mp _h).1
  have := c.isLt
  omega

def innermost (accepts : String → Bool) (root : Node t) : List (Node t) :=
  if accepts root.text then innermostFrom accepts root else []

def faulty (n : Node t) : List (Node t) :=
  (if n.row.isError || n.row.isMissing then [n] else []) ++
    if n.row.hasError then n.children.attach.flatMap fun ⟨c, _h⟩ => faulty c else []
termination_by t.size - n.val
decreasing_by
  have := childrenFollow _h
  have := c.isLt
  omega

end Node

inductive Step where
  | child (i : Int)
  | namedChild (i : Int)
  | namedDescendant (i : Int)
  | field (name : String)
  | parent
  | previous
  | next
  deriving DecidableEq, Repr

def atIndex? {α : Type} (xs : List α) : Int → Option α
  | .ofNat i => xs[i]?
  | .negSucc _ => none

namespace Node

variable {t : Tree}

def step? (n : Node t) : Step → Option (Node t)
  | .child i => atIndex? n.children i
  | .namedChild i => atIndex? n.namedChildren i
  | .namedDescendant i => atIndex? n.namedDescendants i
  | .field name => n.childByField? name
  | .parent => n.parent?
  | .previous => n.previousSibling?
  | .next => n.nextSibling?

def follow? (n : Node t) (steps : List Step) : Option (Node t) :=
  steps.foldlM (fun n s => step? n s) n

end Node

end SyntaxAudit
