import SyntaxAudit.Toml.Scalars
/-! Documents: keys, values, lines, and the table that they add up to. Arrays and inline tables nest
less than `depthLimit` deep, and a dotted key has fewer parts than that. -/
namespace SyntaxAudit.Toml

def isBareKeyChar (c : Char) : Bool := c.isAlphanum || c == '-' || c == '_'

def simpleKey? : Reader String
  | '\x22' :: rest => (basic? rest).map fun (s, r) => (String.ofList s, r)
  | '\x27' :: rest => (literal? rest).map fun (s, r) => (String.ofList s, r)
  | s =>
      let key := s.takeWhile isBareKeyChar
      if key.isEmpty then none else some (String.ofList key, s.dropWhile isBareKeyChar)

def keyParts? : Nat → Reader (List String)
  | 0, _ => none
  | fuel + 1, s => do
      let (part, rest) ← simpleKey? (skipBlanks s)
      match skipBlanks rest with
      | '.' :: rest => (keyParts? fuel rest).map fun (parts, r) => (part :: parts, r)
      | rest => some ([part], rest)

def key? (s : List Char) : Option ((List String × String) × List Char) := do
  let (parts, rest) ← keyParts? (depthLimit - 1) s
  let last ← parts.getLast?
  some ((parts.dropLast, last), rest)

def pair? (value? : Reader Value) (s : List Char) : Option (Pair × List Char) := do
  let ((path, key), rest) ← key? s
  let rest ← expect '=' rest
  let (value, rest) ← value? (skipBlanks rest)
  some (⟨path, key, value⟩, rest)

def elements? (value? : Reader Value) : Nat → Reader (List Value)
  | 0, _ => none
  | fuel + 1, s =>
      match skipLayout false s with
      | ']' :: rest => some ([], rest)
      | s => do
          let (item, rest) ← value? s
          match skipLayout false rest with
          | ',' :: rest =>
              (elements? value? fuel rest).map fun (items, r) => (item :: items, r)
          | ']' :: rest => some ([item], rest)
          | _ => none

def pairs? (value? : Reader Value) : Nat → Reader (List Pair)
  | 0, _ => none
  | fuel + 1, s => do
      let (pair, rest) ← pair? value? s
      match skipBlanks rest with
      | ',' :: rest => (pairs? value? fuel rest).map fun (pairs, r) => (pair :: pairs, r)
      | '\x7d' :: rest => some ([pair], rest)
      | _ => none

def inlineTable? (value? : Reader Value) (s : List Char) : Option (Value × List Char) :=
  match skipBlanks s with
  | '\x7d' :: rest => some (.table .inline [], rest)
  | s => do
      let (pairs, rest) ← pairs? value? s.length s
      let entries ← fill .inlineDotted [] pairs
      some (.table .inline entries, rest)

def scalar : Reader Value
  | 't' :: 'r' :: 'u' :: 'e' :: rest => some (.boolean true, rest)
  | 'f' :: 'a' :: 'l' :: 's' :: 'e' :: rest => some (.boolean false, rest)
  | s =>
      (string? s).map (fun (text, rest) => (.string text, rest)) |>.or
        ((datetime? s).map fun (d, rest) => (.datetime d, rest)) |>.or (number? s)

def value? : Nat → Reader Value
  | 0, s => scalar s
  | depth + 1, s =>
      match s with
      | '[' :: rest =>
          (elements? (value? depth) rest.length rest).map fun (items, r) => (.array items, r)
      | '\x7b' :: rest => inlineTable? (value? depth) rest
      | _ => scalar s

inductive Line where
  | table (path : List String) (key : String)
  | element (path : List String) (key : String)
  | pair (p : Pair)

def header? : Reader Line
  | '[' :: rest => do
      let ((path, key), rest) ← key? rest
      let rest ← expect ']' rest
      let rest ← expect ']' rest
      some (.element path key, ← lineEnd? rest)
  | rest => do
      let ((path, key), rest) ← key? rest
      let rest ← expect ']' rest
      some (.table path key, ← lineEnd? rest)

def line? : Reader Line
  | '[' :: rest => header? rest
  | s => do
      let (pair, rest) ← pair? (value? (depthLimit - 1)) s
      some (.pair pair, ← lineEnd? rest)

def lines? : Nat → List Char → Option (List Line)
  | 0, _ => none
  | fuel + 1, s =>
      match skipLayout false s with
      | [] => some []
      | s => do
          let (line, rest) ← line? s
          let lines ← lines? fuel rest
          some (line :: lines)

def splitPairs : List Line → List Pair × List Line
  | .pair p :: lines =>
      let (pairs, rest) := splitPairs lines
      (p :: pairs, rest)
  | lines => ([], lines)

theorem splitPairsLength (lines : List Line) :
    (splitPairs lines).2.length ≤ lines.length := by
  induction lines with
  | nil => simp [splitPairs]
  | cons line lines ih =>
    cases line with
    | pair p => simp only [splitPairs, List.length_cons]; omega
    | _ => simp [splitPairs]

def build (root : Entries) : List Line → Option Entries
  | [] => some root
  | .pair _ :: _ => none
  | .table path key :: lines => do
      let root ← below (addTable key (splitPairs lines).1) path root
      build root (splitPairs lines).2
  | .element path key :: lines => do
      let root ← below (addElement key (splitPairs lines).1) path root
      build root (splitPairs lines).2
termination_by lines => lines.length
decreasing_by
  all_goals
    have := splitPairsLength lines
    simp only [List.length_cons]
    omega

def dropMark : List Char → List Char
  | '\uFEFF' :: rest => rest
  | s => s

def parse? (text : String) : Option Entries := do
  let s := dropMark text.toList
  let lines ← lines? (s.length + 1) s
  let (pairs, rest) := splitPairs lines
  build (← fill .dotted [] pairs) rest

/-- The key under which a date offers its text where a table is asked for. So where a value is read
without knowing what it holds, a table whose first key it is stands for a date, and what follows is not
looked at. -/
def dateKey : String := "$__toml_private_datetime"

def isDateText (s : List Char) : Bool := (datetime? s).any fun (_, rest) => rest.isEmpty

def Value.isDateText : Value → Bool
  | .string text => Toml.isDateText text.toList
  | _ => false

def Entries.offeredDate? : Entries → Option Value
  | (key, value) :: _ => if key = dateKey then some value else none
  | [] => none

mutual

def Value.isReadable : Value → Bool
  | .array items => areReadable items
  | .tables items => areReadable items
  | .table _ entries =>
      match Entries.offeredDate? entries with
      | some date => date.isDateText
      | none => entriesReadable entries
  | _ => true

def areReadable : List Value → Bool
  | [] => true
  | item :: rest => item.isReadable && areReadable rest

def entriesReadable : List (String × Value) → Bool
  | [] => true
  | (_, value) :: rest => value.isReadable && entriesReadable rest

end

end SyntaxAudit.Toml
