import SyntaxAudit.Text
/-! TOML documents as data. A table keeps its keys in the order in which the document brings them, and
remembers how it came to be: that decides which later lines may extend it. -/
namespace SyntaxAudit.Toml

structure Date where
  year : Nat
  month : Nat
  day : Nat
  deriving DecidableEq, Repr

structure Time where
  hour : Nat
  minute : Nat
  second : Nat
  nanosecond : Nat
  deriving DecidableEq, Repr

inductive Offset where
  | utc
  | minutes (east : Int)
  deriving DecidableEq, Repr

inductive Datetime where
  | date (d : Date)
  | time (t : Time)
  | unzoned (d : Date) (t : Time)
  | zoned (d : Date) (t : Time) (o : Offset)
  deriving DecidableEq, Repr

inductive Origin where
  | header
  | implied
  | dotted
  | inline
  | inlineDotted
  deriving DecidableEq, Repr

def Origin.isInline : Origin → Bool
  | .inline | .inlineDotted => true
  | _ => false

def Origin.isDotted : Origin → Bool
  | .dotted | .inlineDotted => true
  | _ => false

def Origin.isOpen : Origin → Bool
  | .implied | .dotted | .inlineDotted => true
  | _ => false

inductive Value where
  | string (text : String)
  | integer (n : Int)
  | float (x : Float)
  | boolean (b : Bool)
  | datetime (d : Datetime)
  | array (items : List Value)
  | tables (items : List Value)
  | table (origin : Origin) (entries : List (String × Value))

abbrev Entries := List (String × Value)

def Value.typeName : Value → String
  | .string _ => "string"
  | .integer _ => "integer"
  | .float _ => "float"
  | .boolean _ => "boolean"
  | .datetime _ => "datetime"
  | .array _ => "array"
  | .tables _ => "array of tables"
  | .table origin _ => if origin.isInline then "inline table" else "table"

def padded (width n : Nat) : List Char :=
  let digits := Text.decimalDigits n
  List.replicate (width - digits.length) '0' ++ digits

def Date.text (d : Date) : List Char :=
  padded 4 d.year ++ '-' :: padded 2 d.month ++ '-' :: padded 2 d.day

def Time.text (t : Time) : List Char :=
  let whole := padded 2 t.hour ++ ':' :: padded 2 t.minute ++ ':' :: padded 2 t.second
  if t.nanosecond = 0 then whole
  else whole ++ '.' :: ((padded 9 t.nanosecond).reverse.dropWhile (· == '0')).reverse

def Offset.text : Offset → List Char
  | .utc => ['Z']
  | .minutes east =>
      (if east < 0 then '-' else '+') :: padded 2 (east.natAbs / 60) ++
        ':' :: padded 2 (east.natAbs % 60)

def Datetime.text : Datetime → String
  | .date d => String.ofList d.text
  | .time t => String.ofList t.text
  | .unzoned d t => String.ofList (d.text ++ 'T' :: t.text)
  | .zoned d t o => String.ofList (d.text ++ 'T' :: t.text ++ o.text)

structure Pair where
  path : List String
  key : String
  value : Value

def Entries.get? (entries : Entries) (key : String) : Option Value := entries.lookup key

def Entries.replace (entries : Entries) (key : String) (value : Value) : Entries :=
  entries.map fun e => if e.1 = key then (key, value) else e

def Entries.erase (entries : Entries) (key : String) : Entries :=
  entries.filter fun e => e.1 ≠ key

def inLast (change : Entries → Option Entries) (items : List Value) : Option (List Value) :=
  match items.getLast? with
  | some (.table origin entries) =>
      (change entries).map fun entries => items.dropLast ++ [.table origin entries]
  | _ => none

def write (made : Origin) (key : String) (value : Value) :
    List String → Bool → Entries → Option Entries
  | [], writable, entries =>
      if writable ∧ (entries.get? key).isNone then some (entries ++ [(key, value)]) else none
  | step :: path, _, entries =>
      match entries.get? step with
      | none =>
          (write made key value path true []).map fun sub => entries ++ [(step, .table made sub)]
      | some (.table origin sub) =>
          if origin.isOpen then
            (write made key value path origin.isDotted sub).map fun sub =>
              entries.replace step (.table origin sub)
          else none
      | some (.tables items) =>
          (inLast (write made key value path false) items).map fun items =>
            entries.replace step (.tables items)
      | some _ => none

def fill (made : Origin) (entries : Entries) (pairs : List Pair) : Option Entries :=
  pairs.foldlM (fun entries p => write made p.key p.value p.path true entries) entries

def below (change : Entries → Option Entries) : List String → Entries → Option Entries
  | [], entries => change entries
  | step :: path, entries =>
      match entries.get? step with
      | none => (below change path []).map fun sub => entries ++ [(step, .table .implied sub)]
      | some (.table origin sub) =>
          if origin.isInline then none
          else (below change path sub).map fun sub => entries.replace step (.table origin sub)
      | some (.tables items) =>
          (inLast (below change path) items).map fun items =>
            entries.replace step (.tables items)
      | some _ => none

def addTable (key : String) (pairs : List Pair) (parent : Entries) : Option Entries :=
  match parent.get? key with
  | none => (fill .dotted [] pairs).map fun t => parent ++ [(key, .table .header t)]
  | some (.table .implied sub) =>
      (fill .dotted sub pairs).map fun t => parent.erase key ++ [(key, .table .header t)]
  | some _ => none

def addElement (key : String) (pairs : List Pair) (parent : Entries) : Option Entries := do
  let element ← fill .dotted [] pairs
  match parent.get? key with
  | none => some (parent ++ [(key, .tables [.table .header element])])
  | some (.tables items) =>
      some (parent.replace key (.tables (items ++ [.table .header element])))
  | some _ => none

end SyntaxAudit.Toml
