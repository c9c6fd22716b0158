import SyntaxAudit.Text
/-! File paths as texts with slashes, and file systems. All operations on paths are lexical: repeated
slashes and `.` components mean nothing, and `..` is a component like any other. A file system kept in
memory resolves a path component by component from the root. -/
namespace SyntaxAudit

structure Path where
  text : List Char
  deriving DecidableEq, Repr

namespace Path

def ofString (s : String) : Path := ⟨s.toList⟩

def toString (p : Path) : String := String.ofList p.text

def isAbsolute (p : Path) : Bool := p.text.head? == some '/'

def join (p q : Path) : Path :=
  if q.isAbsolute then q
  else if p.text.isEmpty || p.text.getLast? == some '/' then ⟨p.text ++ q.text⟩
  else ⟨p.text ++ '/' :: q.text⟩

def pieces (p : Path) : List (List Char) := p.text.splitOn '/'

def components (p : Path) : List (List Char) :=
  match p.pieces with
  | [] => []
  | first :: rest =>
      let kept := rest.filter fun s => s ≠ [] ∧ s ≠ ['.']
      if first = [] then kept else first :: kept

def fileName? (p : Path) : Option (List Char) :=
  p.components.getLast?.filter fun s => s ≠ ['.'] ∧ s ≠ ['.', '.']

def extension? (p : Path) : Option (List Char) := do
  let name ← p.fileName?
  let after := name.reverse.takeWhile (· ≠ '.')
  let before := name.length - after.length - 1
  if name.contains '.' ∧ 0 < before then some after.reverse else none

-- The text is given from its end.
def strippedEnd : List Char → List Char
  | ['/'] => ['/']
  | ['.'] => ['.']
  | '/' :: rest => strippedEnd rest
  | '.' :: '/' :: rest => strippedEnd ('/' :: rest)
  | s => s

def parent? (p : Path) : Option Path :=
  if p.components.isEmpty then none
  else
    let stripped := strippedEnd p.text.reverse
    some ⟨(strippedEnd (stripped.dropWhile (· ≠ '/'))).reverse⟩

def isIdle (piece : List Char) : Bool := piece = [] || piece = ['.']

def piecesAfter? : List (List Char) → List (List Char) → Option (List (List Char))
  | [], pieces => some pieces
  | _ :: _, [] => none
  | component :: rest, piece :: pieces =>
      if isIdle piece then piecesAfter? (component :: rest) pieces
      else if piece = component then piecesAfter? rest pieces
      else none

def below? (p directory : Path) : Option Path :=
  if p.isAbsolute && directory.isAbsolute then
    (piecesAfter? directory.components p.pieces).map fun pieces =>
      let inner := ((pieces.dropWhile isIdle).reverse.dropWhile isIdle).reverse
      ⟨['/'].intercalate inner⟩
  else none

end Path

inductive ReadError where
  | notFound
  | notDirectory
  | isDirectory
  | nameTooLong
  | permissionDenied
  | nulInName
  | notUtf8
  | system (description : String) (code : Nat)
  deriving DecidableEq, Repr

def ReadError.message : ReadError → String
  | .notFound => "No such file or directory (os error 2)"
  | .notDirectory => "Not a directory (os error 20)"
  | .isDirectory => "Is a directory (os error 21)"
  | .nameTooLong => "File name too long (os error 36)"
  | .permissionDenied => "Permission denied (os error 13)"
  | .nulInName => "file name contained an unexpected NUL byte"
  | .notUtf8 => "stream did not contain valid UTF-8"
  | .system description code => description ++ " (os error " ++ Text.decimal code ++ ")"

structure FileSystem where
  holds : Path → Bool
  read : Path → Except ReadError String

inductive FileEntry where
  | directory
  | file (content : ByteArray)

structure FileStore where
  entries : List (List (List Char) × FileEntry) := []

namespace FileStore

def longestName : Nat := 255

def longestPath : Nat := 4095

def entry? (store : FileStore) : List (List Char) → Option FileEntry
  | [] => some .directory
  | location => store.entries.lookup location

def advance (location : List (List Char)) (name : List Char) : List (List Char) :=
  if name = [] ∨ name = ['.'] then location
  else if name = ['.', '.'] then location.tail
  else name :: location

def step (store : FileStore) (location : List (List Char)) (name : List Char) :
    Except ReadError (List (List Char)) :=
  match store.entry? location with
  | none => .error .notFound
  | some (.file _) => .error .notDirectory
  | some .directory =>
      let next := advance location name
      if longestName < Text.utf8Length name then .error .nameTooLong
      else if (store.entry? next).isSome then .ok next
      else .error .notFound

def resolve (store : FileStore) (p : Path) : Except ReadError FileEntry :=
  if p.text.contains '\x00' then .error .nulInName
  else if p.text.isEmpty then .error .notFound
  else if longestPath < Text.utf8Length p.text then .error .nameTooLong
  else do
    let location ← p.pieces.foldlM store.step []
    match store.entry? location with
    | some entry => .ok entry
    | none => .error .notFound

def read (store : FileStore) (p : Path) : Except ReadError String := do
  match ← store.resolve p with
  | .directory => .error .isDirectory
  | .file content =>
      match String.fromUTF8? content with
      | some text => .ok text
      | none => .error .notUtf8

def fileSystem (store : FileStore) : FileSystem where
  holds p := (store.resolve p).toBool
  read := store.read

def passed (location : List (List Char)) : List (List Char) → List (List (List Char))
  | [] => []
  | name :: rest => location :: passed (advance location name) rest

def insert (store : FileStore) (p : Path) (entry : FileEntry) : FileStore :=
  let directories := (passed [] p.components).map fun location => (location, FileEntry.directory)
  ⟨(p.components.foldl advance [], entry) :: (store.entries ++ directories)⟩

end FileStore

end SyntaxAudit
