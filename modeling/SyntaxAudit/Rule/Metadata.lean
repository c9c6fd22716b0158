import SyntaxAudit.Text
/-! What a rule declares about itself, and what it is set to. A rule for a language also covers the
dialects of that language. Settings are kept in ascending key order, so that two stores are equal exactly
if they hold the same values. -/
namespace SyntaxAudit

inductive Language where
  | python
  | rust
  | typescript
  | tsx
  deriving DecidableEq, Repr

namespace Language

def all : List Language := [.python, .rust, .typescript, .tsx]

def name : Language → String
  | .python => "python"
  | .rust => "rust"
  | .typescript => "typescript"
  | .tsx => "tsx"

instance : Inhabited Language := ⟨.python⟩

def ofExtension? (extension : String) : Option Language :=
  match Text.lower extension with
  | "py" | "pyi" => some .python
  | "rs" => some .rust
  | "ts" | "mts" | "cts" => some .typescript
  | "tsx" => some .tsx
  | _ => none

def ofName? (s : String) : Option Language := all.find? fun l => l.name == s

def normalized (s : String) : String := Text.lower (Text.trim s)

def read? (s : String) : Option Language :=
  match normalized s with
  | "python" | "py" => some .python
  | "rust" | "rs" => some .rust
  | "typescript" | "ts" => some .typescript
  | "tsx" => some .tsx
  | _ => none

def dialects : Language → List Language
  | .typescript => [.typescript, .tsx]
  | l => [l]

def covers (rule file : Language) : Bool := rule.dialects.contains file

end Language

def unsupportedLanguage (s : String) : String :=
  "unsupported language: '" ++ Language.normalized s ++ "'"

structure Context where
  scan : Bool := false
  measure : Bool := false
  deriving DecidableEq, Repr

namespace Context

def scanning : Context := ⟨true, false⟩

def measuring : Context := ⟨false, true⟩

def pieces (s : String) : List (List Char) :=
  (s.toList.splitOn ',').map fun piece => Text.lowered (Text.trimmed piece)

def parse (s : String) : Context where
  scan := (pieces s).contains "scan".toList
  measure := (pieces s).contains "measure".toList

def text : Context → String
  | ⟨true, true⟩ => "scan,measure"
  | ⟨true, false⟩ => "scan"
  | ⟨false, true⟩ => "measure"
  | ⟨false, false⟩ => ""

end Context

inductive Severity where
  | error
  | warning
  | info
  deriving DecidableEq, Repr

def Severity.name : Severity → String
  | .error => "error"
  | .warning => "warning"
  | .info => "info"

structure Priority where
  rank : Nat
  deriving DecidableEq, Repr

namespace Priority

def low : Priority := ⟨0⟩

def medium : Priority := ⟨1⟩

def high : Priority := ⟨2⟩

def limit : Nat := 0x100000000

def level (p : Priority) : Nat := min p.rank high.rank

def severity (p : Priority) : Severity :=
  match p.level with
  | 0 => .info
  | 1 => .warning
  | _ => .error

instance : Ord Priority := ⟨fun p q => compare p.rank q.rank⟩

end Priority

structure Metadata where
  name : String
  category : String := ""
  message : String := ""
  suggestion : Option String := none
  priority : Priority := .low
  context : Context := {}
  language : Language := .python
  query : Option String := none
  regex : Option String := none
  deriving DecidableEq, Repr

def Ascending (entries : List (String × String)) : Prop :=
  entries.Pairwise fun a b => a.1 < b.1

def insertEntry (key value : String) : List (String × String) → List (String × String)
  | [] => [(key, value)]
  | (k, v) :: rest =>
      if key < k then (key, value) :: (k, v) :: rest
      else if key = k then (key, value) :: rest
      else (k, v) :: insertEntry key value rest

theorem memInsertEntry {key value : String} {e : String × String}
    {entries : List (String × String)} (h : e ∈ insertEntry key value entries) :
    e = (key, value) ∨ e ∈ entries := by
  induction entries with
  | nil => simpa [insertEntry] using h
  | cons head rest ih =>
    obtain ⟨k, v⟩ := head
    simp only [insertEntry] at h
    split at h
    · simpa using h
    · split at h
      · rcases List.mem_cons.mp h with rfl | inside
        · exact .inl rfl
        · exact .inr (List.mem_cons_of_mem _ inside)
      · rcases List.mem_cons.mp h with rfl | inside
        · exact .inr (List.mem_cons_self ..)
        · exact (ih inside).imp id (List.mem_cons_of_mem _)

theorem insertEntryAscending (key value : String) {entries : List (String × String)}
    (h : Ascending entries) : Ascending (insertEntry key value entries) := by
  induction entries with
  | nil => exact List.pairwise_singleton ..
  | cons head rest ih =>
    obtain ⟨k, v⟩ := head
    obtain ⟨above, tail⟩ := List.pairwise_cons.mp h
    simp only [insertEntry]
    split
    · rename_i less
      refine List.pairwise_cons.mpr ⟨fun e mem => ?_, h⟩
      rcases List.mem_cons.mp mem with rfl | inside
      · exact less
      · exact String.lt_trans less (above e inside)
    · split
      · rename_i same
        subst same
        exact List.pairwise_cons.mpr ⟨above, tail⟩
      · rename_i notLess notSame
        refine List.pairwise_cons.mpr ⟨fun e mem => ?_, ih tail⟩
        rcases memInsertEntry mem with rfl | inside
        · rcases Std.lt_trichotomy k key with less | same | greater
          · exact less
          · exact absurd same.symm notSame
          · exact absurd greater notLess
        · exact above e inside

structure Settings where
  entries : List (String × String)
  ascending : Ascending entries
  deriving DecidableEq, Repr

namespace Settings

def empty : Settings := ⟨[], List.Pairwise.nil⟩

instance : Inhabited Settings := ⟨empty⟩

def get? (s : Settings) (key : String) : Option String := s.entries.lookup key

def get (s : Settings) (key : String) : String := (s.get? key).getD ""

def contains (s : Settings) (key : String) : Bool := (s.get? key).isSome

def set (s : Settings) (key value : String) : Settings :=
  ⟨insertEntry key value s.entries, insertEntryAscending key value s.ascending⟩

def erase (s : Settings) (key : String) : Settings :=
  ⟨s.entries.filter fun e => e.1 ≠ key, s.ascending.filter _⟩

def remove (s : Settings) (key : String) : Option String × Settings := (s.get? key, s.erase key)

def size (s : Settings) : Nat := s.entries.length

def isEmpty (s : Settings) : Bool := s.entries.isEmpty

def trimmed? (s : Settings) (key : String) : Option (List Char) :=
  (s.get? key).map fun value => Text.trimmed value.toList

def string? (s : Settings) (key : String) : Option String := (s.trimmed? key).map String.ofList

def natural? (s : Settings) (limit : Nat) (key : String) : Option Nat :=
  (s.trimmed? key).bind (Text.natural? limit)

def integer? (s : Settings) (limit : Nat) (key : String) : Option Int :=
  (s.trimmed? key).bind (Text.integer? limit)

def boolean? (s : Settings) (key : String) : Option Bool := (s.trimmed? key).bind Text.boolean?

def language? (s : Settings) (key : String) : Option Language :=
  (s.string? key).bind Language.read?

end Settings

end SyntaxAudit
