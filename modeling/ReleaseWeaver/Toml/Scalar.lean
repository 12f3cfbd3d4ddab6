import ReleaseWeaver.Toml.Value

/-
  Numbers, truth values, dates and times of a TOML document. A reader takes the characters of one
  word and tells what it is.
-/

namespace ReleaseWeaver.Toml

def isDigitOf (base : Nat) (c : Char) : Bool :=
  let value := if '0' ≤ c && c ≤ '9' then c.toNat - '0'.toNat
    else if 'a' ≤ c && c ≤ 'f' then c.toNat - 'a'.toNat + 10
    else if 'A' ≤ c && c ≤ 'F' then c.toNat - 'A'.toNat + 10
    else 16
  value < base

def digitValue (c : Char) : Nat :=
  if '0' ≤ c && c ≤ '9' then c.toNat - '0'.toNat
  else if 'a' ≤ c && c ≤ 'f' then c.toNat - 'a'.toNat + 10
  else c.toNat - 'A'.toNat + 10

/-- At least one digit; a single underscore may stand between two digits. -/
def digits? (base : Nat) : List Char → Option (List Char)
  | [] => none
  | [c] => if isDigitOf base c then some [c] else none
  | c :: '_' :: rest =>
    if isDigitOf base c then (digits? base rest).map fun ds => c :: ds else none
  | c :: rest => if isDigitOf base c then (digits? base rest).map fun ds => c :: ds else none

def valueOf (base : Nat) (digits : List Char) : Nat :=
  digits.foldl (fun n c => base * n + digitValue c) 0

/-- Decimal digits without leading zeros. -/
def decimal? (cs : List Char) : Option (List Char) := do
  let ds ← digits? 10 cs
  if ds.length > 1 && ds.head? == some '0' then none else return ds

def splitSign : List Char → Bool × List Char
  | '-' :: cs => (true, cs)
  | '+' :: cs => (false, cs)
  | cs => (false, cs)

/-- Integers of 128 bits, with a sign or without. -/
def inRange (n : Int) : Bool := -Int.pow 2 127 ≤ n && n < Int.pow 2 128

def integer? (word : List Char) : Option Value := do
  let n : Int ← match word with
    | '0' :: 'x' :: cs => (digits? 16 cs).map fun ds => (valueOf 16 ds : Int)
    | '0' :: 'o' :: cs => (digits? 8 cs).map fun ds => (valueOf 8 ds : Int)
    | '0' :: 'b' :: cs => (digits? 2 cs).map fun ds => (valueOf 2 ds : Int)
    | _ =>
      let (negative, cs) := splitSign word
      (decimal? cs).map fun ds => if negative then -(valueOf 10 ds : Int) else valueOf 10 ds
  if inRange n then return .integer n else none

/-- Whether `digits · 10^exponent` rounds to a finite number of 64 bits. -/
def isFinite (digits : List Char) (exponent : Int) : Bool :=
  let n := valueOf 10 digits
  let magnitude := ((Nat.toDigits 10 n).length : Int) + exponent
  let bound := Nat.pow 2 1024 - Nat.pow 2 970
  if n = 0 || magnitude < 309 then true
  else if magnitude > 309 then false
  else if 0 ≤ exponent then n * Nat.pow 10 exponent.toNat < bound
  else n < bound * Nat.pow 10 (-exponent).toNat

def isExponentMark (c : Char) : Bool := c == 'e' || c == 'E'

def float? (word : List Char) : Option Value := do
  let (_, cs) := splitSign word
  if cs == ['i', 'n', 'f'] || cs == ['n', 'a', 'n'] then return .float
  let mantissa := cs.takeWhile fun c => !isExponentMark c
  let power := cs.dropWhile fun c => !isExponentMark c
  let whole ← decimal? (mantissa.takeWhile (· != '.'))
  let point := mantissa.dropWhile (· != '.')
  let fraction ← if point.isEmpty then some [] else digits? 10 (point.drop 1)
  let exponent : Int ← if power.isEmpty then some 0 else
    let (negative, ds) := splitSign (power.drop 1)
    (digits? 10 ds).map fun ds => if negative then -(valueOf 10 ds : Int) else valueOf 10 ds
  if point.isEmpty && power.isEmpty then none
  else if isFinite (whole ++ fraction) (exponent - fraction.length) then return .float
  else none

def boolean? (word : List Char) : Option Value :=
  if word == ['t', 'r', 'u', 'e'] then some (.boolean true)
  else if word == ['f', 'a', 'l', 's', 'e'] then some (.boolean false)
  else none

def twoDigits? (a b : Char) (low high : Nat) : Option Nat :=
  if isDigitOf 10 a && isDigitOf 10 b then
    let n := valueOf 10 [a, b]
    if low ≤ n && n ≤ high then some n else none
  else none

def isLeapYear (year : Nat) : Bool := year % 4 == 0 && (year % 100 != 0 || year % 400 == 0)

def daysIn (year month : Nat) : Nat :=
  if month = 2 then (if isLeapYear year then 29 else 28)
  else if month = 4 || month = 6 || month = 9 || month = 11 then 30
  else 31

/-- A date of the calendar; gives what follows it. -/
def date? : List Char → Option (List Char)
  | a :: b :: c :: d :: '-' :: e :: f :: '-' :: g :: h :: rest => do
    if !([a, b, c, d].all (isDigitOf 10)) then none
    let month ← twoDigits? e f 1 12
    let _ ← twoDigits? g h 1 (daysIn (valueOf 10 [a, b, c, d]) month)
    return rest
  | _ => none

def seconds? : List Char → Option (List Char)
  | ':' :: a :: b :: rest => do
    let _ ← twoDigits? a b 0 60
    match rest with
    | '.' :: c :: rest =>
      if isDigitOf 10 c then return rest.dropWhile (isDigitOf 10) else none
    | _ => return rest
  | rest => some rest

/-- Hours and minutes, and perhaps seconds; gives what follows. -/
def time? : List Char → Option (List Char)
  | a :: b :: ':' :: c :: d :: rest => do
    let _ ← twoDigits? a b 0 23
    let _ ← twoDigits? c d 0 59
    seconds? rest
  | _ => none

/-- Nothing, `Z`, or the hours and minutes from universal time. -/
def isOffset : List Char → Bool
  | [] | ['Z'] | ['z'] => true
  | sign :: a :: b :: ':' :: [c, d] =>
    (sign == '+' || sign == '-') && (twoDigits? a b 0 23).isSome && (twoDigits? c d 0 59).isSome
  | _ => false

def dateTime? (word : List Char) : Option Value :=
  match date? word with
  | some [] => some .dateTime
  | some (mark :: rest) =>
    if mark == 'T' || mark == 't' || mark == ' ' then
      (time? rest).bind fun rest => if isOffset rest then some .dateTime else none
    else none
  | none => (time? word).bind fun rest => if rest.isEmpty then some .dateTime else none

def isWordChar (c : Char) : Bool :=
  c.isAlphanum || c == '+' || c == '-' || c == '_' || c == '.' || c == ':'

/-- The characters of a word; a blank may stand between a date and a time. -/
def splitWord (cs : List Char) : List Char × List Char :=
  let word := cs.takeWhile isWordChar
  let rest := cs.dropWhile isWordChar
  match date? word, rest with
  | some [], ' ' :: c :: more =>
    if isDigitOf 10 c then
      (word ++ ' ' :: (c :: more).takeWhile isWordChar, (c :: more).dropWhile isWordChar)
    else (word, rest)
  | _, _ => (word, rest)

def readScalar (cs : List Char) : Option (Value × List Char) := do
  let (word, rest) := splitWord cs
  let v ← boolean? word <|> integer? word <|> float? word <|> dateTime? word
  return (v, rest)

end ReleaseWeaver.Toml
