import SyntaxAudit.Decimal
import SyntaxAudit.Toml.Value
/-! Blanks and comments, strings, numbers and dates. Digits may be grouped by single underscores.
Integers have 64 bits; a float above the range is refused, one below it reads as negative infinity. -/
namespace SyntaxAudit.Toml

abbrev Reader (α : Type) := List Char → Option (α × List Char)

def depthLimit : Nat := 80

def isBlank (c : Char) : Bool := c == ' ' || c == '\t'

def skipBlanks (s : List Char) : List Char := s.dropWhile isBlank

def isControl (c : Char) : Bool := c.toNat < 0x20 || c.toNat == 0x7F

def isCommentChar (c : Char) : Bool := c == '\t' || !isControl c

def skipComment : List Char → List Char
  | '#' :: rest => rest.dropWhile isCommentChar
  | s => s

def newline? : List Char → Option (List Char)
  | '\n' :: rest => some rest
  | '\r' :: '\n' :: rest => some rest
  | _ => none

def lineEnd? (s : List Char) : Option (List Char) :=
  match skipComment (skipBlanks s) with
  | [] => some []
  | rest => newline? rest

def skipLayout : Bool → List Char → List Char
  | false, ' ' :: rest => skipLayout false rest
  | false, '\t' :: rest => skipLayout false rest
  | false, '#' :: rest => skipLayout true rest
  | _, '\n' :: rest => skipLayout false rest
  | _, '\r' :: '\n' :: rest => skipLayout false rest
  | true, c :: rest => if isCommentChar c then skipLayout true rest else c :: rest
  | _, s => s

def expect (c : Char) : List Char → Option (List Char)
  | d :: rest => if c = d then some rest else none
  | [] => none

def quote : Char := '\x22'

def apostrophe : Char := '\x27'

def backslash : Char := '\x5c'

def isBasicChar (c : Char) : Bool := isCommentChar c && c != quote && c != backslash

def isLiteralChar (c : Char) : Bool := isCommentChar c && c != apostrophe

def escaped? : Char → Option Char
  | 'b' => some '\x08'
  | 't' => some '\t'
  | 'n' => some '\n'
  | 'f' => some '\x0c'
  | 'r' => some '\r'
  | '\x22' => some '\x22'
  | '\x5c' => some '\x5c'
  | _ => none

def hexValue? (c : Char) : Option Nat :=
  if '0' ≤ c ∧ c ≤ '9' then some (c.toNat - 48)
  else if 'a' ≤ c ∧ c ≤ 'f' then some (c.toNat - 87)
  else if 'A' ≤ c ∧ c ≤ 'F' then some (c.toNat - 55)
  else none

def scalar? (digits : List Char) : Option Char := do
  let values ← digits.mapM hexValue?
  let n := values.foldl (fun n d => 16 * n + d) 0
  if n.isValidChar then some (Char.ofNat n) else none

def escape? : Reader Char
  | 'u' :: a :: b :: c :: d :: rest => (scalar? [a, b, c, d]).map (·, rest)
  | 'U' :: a :: b :: c :: d :: e :: f :: g :: h :: rest =>
      (scalar? [a, b, c, d, e, f, g, h]).map (·, rest)
  | e :: rest => (escaped? e).map (·, rest)
  | [] => none

theorem escapeShortens {s : List Char} {c : Char} {rest : List Char}
    (h : escape? s = some (c, rest)) : rest.length < s.length := by
  unfold escape? at h
  split at h
  all_goals first
    | contradiction
    | (obtain ⟨_, _, same⟩ := Option.map_eq_some_iff.mp h
       cases same
       simp only [List.length_cons]
       omega)

def basic? : Reader (List Char)
  | [] => none
  | c :: rest =>
      if c = quote then some ([], rest)
      else if c = backslash then
        match h : escape? rest with
        | some (e, tail) =>
            have _shorter := escapeShortens h
            (basic? tail).map fun (s, r) => (e :: s, r)
        | none => none
      else if isBasicChar c then (basic? rest).map fun (s, r) => (c :: s, r)
      else none
termination_by s => s.length
decreasing_by
  · simp only [List.length_cons]; omega
  · simp

def literal? : Reader (List Char)
  | [] => none
  | c :: rest =>
      if c = apostrophe then some ([], rest)
      else if isLiteralChar c then (literal? rest).map fun (s, r) => (c :: s, r)
      else none

def closing? (delimiter : Char) (s : List Char) : Option (List Char × List Char) :=
  let count := (s.takeWhile (· == delimiter)).length
  if count < 3 then none
  else
    let inside := min (count - 3) 2
    some (List.replicate inside delimiter, s.drop (inside + 3))

def joinsLines (s : List Char) : Bool := (newline? (skipBlanks s)).isSome

def skipJoined : List Char → List Char
  | ' ' :: rest => skipJoined rest
  | '\t' :: rest => skipJoined rest
  | '\n' :: rest => skipJoined rest
  | '\r' :: '\n' :: rest => skipJoined rest
  | s => s

theorem skipJoinedLength (s : List Char) : (skipJoined s).length ≤ s.length := by
  fun_induction skipJoined s with
  | case5 => exact Nat.le_refl _
  | _ => simp only [List.length_cons]; omega

def multiBasic? (s : List Char) : Option (List Char × List Char) :=
  match closing? quote s, s with
  | some done, _ => some done
  | none, [] => none
  | none, c :: rest =>
      if c = backslash then
        if joinsLines rest then multiBasic? (skipJoined rest)
        else
          match h : escape? rest with
          | some (e, tail) =>
              have _shorter := escapeShortens h
              (multiBasic? tail).map fun (s, r) => (e :: s, r)
          | none => none
      else if c = '\n' then (multiBasic? rest).map fun (s, r) => ('\n' :: s, r)
      else if c = '\r' then
        match rest with
        | '\n' :: tail => (multiBasic? tail).map fun (s, r) => ('\n' :: s, r)
        | _ => none
      else if isBasicChar c || c == quote then
        (multiBasic? rest).map fun (s, r) => (c :: s, r)
      else none
termination_by s.length
decreasing_by
  · have := skipJoinedLength rest; simp only [List.length_cons]; omega
  · simp only [List.length_cons]; omega
  · simp
  · simp only [List.length_cons]; omega
  · simp

def multiLiteral? (s : List Char) : Option (List Char × List Char) :=
  match closing? apostrophe s, s with
  | some done, _ => some done
  | none, [] => none
  | none, '\r' :: '\n' :: tail => (multiLiteral? tail).map fun (s, r) => ('\n' :: s, r)
  | none, c :: rest =>
      if c = '\n' || isCommentChar c then (multiLiteral? rest).map fun (s, r) => (c :: s, r)
      else none

def dropNewline (s : List Char) : List Char := (newline? s).getD s

def string? : Reader String
  | '\x22' :: '\x22' :: '\x22' :: rest =>
      (multiBasic? (dropNewline rest)).map fun (s, r) => (String.ofList s, r)
  | '\x22' :: rest => (basic? rest).map fun (s, r) => (String.ofList s, r)
  | '\x27' :: '\x27' :: '\x27' :: rest =>
      (multiLiteral? (dropNewline rest)).map fun (s, r) => (String.ofList s, r)
  | '\x27' :: rest => (literal? rest).map fun (s, r) => (String.ofList s, r)
  | _ => none

def moreDigits (isDigit : Char → Bool) : List Char → List Char × List Char
  | [] => ([], [])
  | c :: rest =>
      if isDigit c then
        let (digits, tail) := moreDigits isDigit rest
        (c :: digits, tail)
      else
        match rest with
        | [] => ([], [c])
        | d :: next =>
            if c = '_' ∧ isDigit d then
              let (digits, tail) := moreDigits isDigit next
              (d :: digits, tail)
            else ([], c :: d :: next)

def someDigits? (isDigit : Char → Bool) : Reader (List Char)
  | [] => none
  | c :: rest =>
      if isDigit c then
        let (digits, tail) := moreDigits isDigit rest
        some (c :: digits, tail)
      else none

def signed : List Char → Bool × List Char
  | '-' :: rest => (true, rest)
  | '+' :: rest => (false, rest)
  | s => (false, s)

def whole? : Reader (List Char)
  | '0' :: rest => some (['0'], rest)
  | s => someDigits? Char.isDigit s

def fraction? : Reader (Option (List Char))
  | '.' :: rest => (someDigits? Char.isDigit rest).map fun (digits, tail) => (some digits, tail)
  | s => some (none, s)

def exponent? : Reader (Option Int)
  | c :: rest =>
      if c = 'e' ∨ c = 'E' then
        let (negative, rest) := signed rest
        (someDigits? Char.isDigit rest).map fun (digits, tail) =>
          let n := Int.ofNat (Text.digitsValue digits)
          (some (if negative then -n else n), tail)
      else some (none, c :: rest)
  | [] => some (none, [])

def int64? (negative : Bool) (n : Nat) : Option Value :=
  if negative then if n ≤ Text.signedLimit then some (.integer (-Int.ofNat n)) else none
  else if n < Text.signedLimit then some (.integer (Int.ofNat n)) else none

def float? (negative : Bool) (digits : List Char) (exponent : Int) : Option Value :=
  let x := Decimal.read negative (Text.digitsValue digits) exponent
  if x.isInf && !negative then none else some (.float x)

def decimal? (s : List Char) : Option (Value × List Char) := do
  let (negative, rest) := signed s
  let (digits, rest) ← whole? rest
  let (fraction, rest) ← fraction? rest
  let (exponent, rest) ← exponent? rest
  match fraction, exponent with
  | none, none => (int64? negative (Text.digitsValue digits)).map (·, rest)
  | _, _ =>
      let places := fraction.getD []
      (float? negative (digits ++ places) (exponent.getD 0 - Int.ofNat places.length)).map (·, rest)

def based? (base : Nat) (s : List Char) : Option (Value × List Char) := do
  let isDigit := fun c => (hexValue? c).any (· < base)
  let (digits, rest) ← someDigits? isDigit s
  let values ← digits.mapM hexValue?
  (int64? false (values.foldl (fun n d => base * n + d) 0)).map (·, rest)

def special? (negative : Bool) : Reader Value
  | 'i' :: 'n' :: 'f' :: rest =>
      let bits := Decimal.infinityBits + if negative then Decimal.signBit else 0
      some (.float (Float.ofBits (UInt64.ofNat bits)), rest)
  | 'n' :: 'a' :: 'n' :: rest =>
      some (.float (Float.ofBits (UInt64.ofNat (Decimal.infinityBits + 1))), rest)
  | _ => none

def number? (s : List Char) : Option (Value × List Char) :=
  match s with
  | '0' :: 'x' :: rest => based? 16 rest
  | '0' :: 'o' :: rest => based? 8 rest
  | '0' :: 'b' :: rest => based? 2 rest
  | _ =>
      let (negative, rest) := signed s
      (special? negative rest).or (decimal? s)

def field? (count low high : Nat) (s : List Char) : Option (Nat × List Char) :=
  let digits := s.take count
  if digits.length = count ∧ digits.all Char.isDigit then
    let n := Text.digitsValue digits
    if low ≤ n ∧ n ≤ high then some (n, s.drop count) else none
  else none

def daysIn (year month : Nat) : Nat :=
  if month = 2 then
    if year % 4 = 0 ∧ (year % 100 ≠ 0 ∨ year % 400 = 0) then 29 else 28
  else if month = 4 ∨ month = 6 ∨ month = 9 ∨ month = 11 then 30
  else 31

def date? (s : List Char) : Option (Date × List Char) := do
  let (year, s) ← field? 4 0 9999 s
  let s ← expect '-' s
  let (month, s) ← field? 2 1 12 s
  let s ← expect '-' s
  let (day, s) ← field? 2 1 31 s
  if day ≤ daysIn year month then some (⟨year, month, day⟩, s) else none

def nanoseconds : List Char → Nat × List Char
  | '.' :: rest =>
      let digits := rest.takeWhile Char.isDigit
      if digits.isEmpty then (0, '.' :: rest)
      else
        let kept := digits.take 9
        (Text.digitsValue kept * Nat.pow 10 (9 - kept.length), rest.dropWhile Char.isDigit)
  | s => (0, s)

def time? (s : List Char) : Option (Time × List Char) := do
  let (hour, s) ← field? 2 0 23 s
  let s ← expect ':' s
  let (minute, s) ← field? 2 0 59 s
  let s ← expect ':' s
  let (second, s) ← field? 2 0 60 s
  let (nanosecond, s) := nanoseconds s
  some (⟨hour, minute, second, nanosecond⟩, s)

def offset? : Reader Offset
  | 'Z' :: rest => some (.utc, rest)
  | 'z' :: rest => some (.utc, rest)
  | c :: rest =>
      if c = '+' ∨ c = '-' then do
        let (hour, s) ← field? 2 0 23 rest
        let s ← expect ':' s
        let (minute, s) ← field? 2 0 59 s
        let east := Int.ofNat (60 * hour + minute)
        some (.minutes (if c = '-' then -east else east), s)
      else none
  | [] => none

def timeAfter? : Reader Time
  | c :: rest => if c = 'T' ∨ c = 't' ∨ c = ' ' then time? rest else none
  | [] => none

def datetime? (s : List Char) : Option (Datetime × List Char) :=
  match date? s with
  | some (d, rest) =>
      match timeAfter? rest with
      | some (t, tail) =>
          match offset? tail with
          | some (o, tail) => some (.zoned d t o, tail)
          | none => some (.unzoned d t, tail)
      | none => some (.date d, rest)
  | none => (time? s).map fun (t, rest) => (.time t, rest)

end SyntaxAudit.Toml
