/-
  Versions `major.minor.patch-pre+build` and their total order: a pre-release comes before its
  release, identifiers of digits count as numbers and come before the others, a list that ends
  first comes first, and the build metadata decide last.
-/

namespace ReleaseWeaver

structure Version where
  major : Nat
  minor : Nat
  patch : Nat
  pre : List String := []
  build : List String := []
deriving DecidableEq, Inhabited, Repr

namespace Version

def isNumeric (s : String) : Bool := s.toList.all Char.isDigit

/-- Shorter first, then by characters: the order of numbers written without leading zeros. -/
def compareDigits (a b : List Char) : Ordering :=
  (compare a.length b.length).then (compare (String.ofList a) (String.ofList b))

def comparePreIdent (a b : String) : Ordering :=
  match isNumeric a, isNumeric b with
  | false, true => .gt
  | true, false => .lt
  | false, false => compare a b
  | true, true => compareDigits a.toList b.toList

/-- Leading zeros are allowed here: the value decides, then the number of digits. -/
def compareBuildIdent (a b : String) : Ordering :=
  match isNumeric a, isNumeric b with
  | false, true => .gt
  | true, false => .lt
  | false, false => compare a b
  | true, true =>
    (compareDigits (a.toList.dropWhile (· == '0')) (b.toList.dropWhile (· == '0'))).then
      (compare a.length b.length)

def compareIdents (compareIdent : String → String → Ordering) :
    List String → List String → Ordering
  | [], [] => .eq
  | [], _ :: _ => .lt
  | _ :: _, [] => .gt
  | a :: as, b :: bs => (compareIdent a b).then (compareIdents compareIdent as bs)

def comparePre (a b : List String) : Ordering :=
  match a, b with
  | [], [] => .eq
  | [], _ :: _ => .gt
  | _ :: _, [] => .lt
  | a, b => compareIdents comparePreIdent a b

def order (a b : Version) : Ordering :=
  (compare a.major b.major).then <| (compare a.minor b.minor).then <|
    (compare a.patch b.patch).then <| (comparePre a.pre b.pre).then <|
      compareIdents compareBuildIdent a.build b.build

/-- Identifiers behind a mark, if there are any. -/
def identsText (mark : Char) (idents : List String) : String :=
  if idents.isEmpty then "" else String.singleton mark ++ String.intercalate "." idents

def text (v : Version) : String :=
  toString v.major ++ "." ++ toString v.minor ++ "." ++ toString v.patch
    ++ identsText '-' v.pre ++ identsText '+' v.build

/-- A zero, and something behind it. -/
def hasLeadingZero (cs : List Char) : Bool := cs.length > 1 && cs.head? == some '0'

/-- A number below 2^64 without leading zeros. -/
def readNumber? (cs : List Char) : Option Nat :=
  if cs.isEmpty || !cs.all Char.isDigit || hasLeadingZero cs then none
  else
    let n := Nat.ofDigitChars 10 cs 0
    if n < UInt64.size then some n else none

/-- Three numbers between dots. -/
def readNumbers? (cs : List Char) : Option (Nat × Nat × Nat) :=
  match cs.splitOn '.' with
  | [major, minor, patch] =>
    return (← readNumber? major, ← readNumber? minor, ← readNumber? patch)
  | _ => none

def isIdentChar (c : Char) : Bool := c.isAlphanum || c == '-'

/-- Not empty; `zeros` allows numbers with leading zeros. -/
def isIdent (zeros : Bool) (cs : List Char) : Bool :=
  !cs.isEmpty && cs.all isIdentChar && (zeros || !(cs.all Char.isDigit && hasLeadingZero cs))

/-- Nothing, or identifiers between dots behind a mark. -/
def readIdents? (zeros : Bool) (cs : List Char) : Option (List String) :=
  if cs.isEmpty then some []
  else
    let idents := (cs.drop 1).splitOn '.'
    if idents.all (isIdent zeros) then some (idents.map String.ofList) else none

/-- Numbers that fit, and identifiers that are written as they have to be. -/
def isReadable (v : Version) : Bool :=
  [v.major, v.minor, v.patch].all (· < UInt64.size)
    && v.pre.all (isIdent false ·.toList) && v.build.all (isIdent true ·.toList)

def ofString? (s : String) : Option Version := do
  let (front, build) := s.toList.span (· != '+')
  let (core, pre) := front.span (· != '-')
  let (major, minor, patch) ← readNumbers? core
  let pre ← readIdents? false pre
  let build ← readIdents? true build
  return { major, minor, patch, pre, build }

end Version

/-- A referenced assembly. -/
structure AssemblyRef where
  name : String
  version : Version
deriving DecidableEq, Inhabited, Repr

def AssemblyRef.text (a : AssemblyRef) : String := a.name ++ " v" ++ a.version.text

end ReleaseWeaver
