import SyntaxAudit.Text
/-! Floating-point numbers and decimals. A decimal of any length is read as the nearest pattern of 64
bits, halfway cases as the even one. A number is written in positional notation by the shortest decimal
that reads as it: the one on the coarsest grid of powers of ten, and of two there the nearer. -/
namespace SyntaxAudit.Decimal

structure Binary where
  significand : Nat
  exponent : Int
  deriving DecidableEq, Repr

def leastExponent : Int := -1074

def leadingBit : Nat := 0x10000000000000

def infinityBits : Nat := 2047 * leadingBit

def Binary.ofBits (bits : Nat) : Binary :=
  let field := bits / leadingBit % 2048
  let fraction := bits % leadingBit
  if field = 0 then ⟨fraction, leastExponent⟩
  else ⟨leadingBit + fraction, Int.ofNat field - 1075⟩

def scaled (base num den : Nat) (e : Int) : Nat × Nat :=
  if 0 ≤ e then (num, den * base.pow e.toNat) else (num * base.pow (-e).toNat, den)

def roundEven (num den : Nat) : Nat :=
  let q := num / den
  let r := num % den
  if 2 * r < den then q else if den < 2 * r then q + 1 else q + q % 2

def exponentFor (num den : Nat) : Int :=
  let e : Int := (num.log2 : Int) - (den.log2 : Int) - 52
  let (a, b) := scaled 2 num den e
  max leastExponent (if a < leadingBit * b then e - 1 else e)

def nearestBits (num den : Nat) : Nat :=
  if num = 0 then 0 else
    let e := exponentFor num den
    let (a, b) := scaled 2 num den e
    min infinityBits ((e - leastExponent).toNat * leadingBit + roundEven a b)

structure Shortest where
  digits : Nat
  exponent : Int
  deriving DecidableEq, Repr

/-- Four times the significand and its distances to the ends of the rounding interval, in
quarters of the last place. Below a power of two the neighbour is half as far. -/
structure Interval where
  low : Nat
  middle : Nat
  high : Nat
  deriving DecidableEq, Repr

def Binary.interval (x : Binary) : Interval :=
  let m := 4 * x.significand
  let narrow := x.significand = leadingBit ∧ x.exponent ≠ leastExponent
  ⟨m - (if narrow then 1 else 2), m, m + 2⟩

def Binary.sides (x : Binary) (k : Nat) (e : Int) (quarters : Nat) : Nat × Nat :=
  let q := x.exponent - 2
  (k * Nat.pow 10 e.toNat * Nat.pow 2 (-q).toNat,
    quarters * Nat.pow 2 q.toNat * Nat.pow 10 (-e).toNat)

def Binary.holds (x : Binary) (k : Nat) (e : Int) : Bool :=
  let i := x.interval
  let (above, low) := x.sides k e i.low
  let (below, high) := x.sides k e i.high
  if x.significand % 2 = 0 then low ≤ above && below ≤ high else low < above && below < high

def Binary.floorAt (x : Binary) (e : Int) : Nat :=
  let (one, value) := x.sides 1 e x.interval.middle
  value / one

def Binary.onGrid? (x : Binary) (e : Int) : Option Shortest :=
  let k := x.floorAt e
  match x.holds k e, x.holds (k + 1) e with
  | false, false => none
  | true, false => some ⟨k, e⟩
  | false, true => some ⟨k + 1, e⟩
  | true, true =>
      let (between, twice) := x.sides (2 * k + 1) e (2 * x.interval.middle)
      some ⟨if twice < between then k else k + 1, e⟩

def grids : List Int := (List.range 634).map fun i => 309 - Int.ofNat i

def Binary.shortest (x : Binary) : Shortest :=
  (grids.findSome? x.onGrid?).getD ⟨0, 0⟩

def Shortest.positional (d : Shortest) : List Char :=
  let digits := Text.decimalDigits d.digits
  if 0 ≤ d.exponent then digits ++ List.replicate d.exponent.toNat '0'
  else
    let places := (-d.exponent).toNat
    if places < digits.length then
      digits.take (digits.length - places) ++ '.' :: digits.drop (digits.length - places)
    else '0' :: '.' :: (List.replicate (places - digits.length) '0' ++ digits)

def magnitude (bits : Nat) : List Char :=
  let x := Binary.ofBits bits
  if x.significand = 0 then ['0'] else x.shortest.positional

def signBit : Nat := 0x8000000000000000

def positional (x : Float) : String :=
  let bits := x.toBits.toNat
  let rest := bits % signBit
  if infinityBits < rest then "NaN" else
    let text := if rest = infinityBits then "inf".toList else magnitude rest
    String.ofList (if signBit ≤ bits then '-' :: text else text)

def pointed (x : Float) : String :=
  let text := positional x
  if x.isFinite && !text.toList.contains '.' then text ++ ".0" else text

def readBits (digits : Nat) (exponent : Int) : Nat :=
  let leading : Int := (Text.decimalDigits digits).length + exponent
  if digits = 0 || leading < -330 then 0
  else if 320 < leading then infinityBits
  else nearestBits (digits * Nat.pow 10 exponent.toNat) (Nat.pow 10 (-exponent).toNat)

def read (negative : Bool) (digits : Nat) (exponent : Int) : Float :=
  let bits := readBits digits exponent
  Float.ofBits (UInt64.ofNat (if negative then bits + signBit else bits))

end SyntaxAudit.Decimal
