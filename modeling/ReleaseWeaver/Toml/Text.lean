/-
  Strings of a TOML document, in their four spellings. Each reader starts behind the opening
  quotes and gives the characters and what follows the closing quotes.
-/

namespace ReleaseWeaver.Toml

/-- Control characters other than the tab. -/
def isControl (c : Char) : Bool := (c.toNat < 0x20 && c != '\t') || c.toNat == 0x7f

def isBlank (c : Char) : Bool := c == ' ' || c == '\t'

def hexDigit? (c : Char) : Option Nat :=
  if '0' ≤ c && c ≤ '9' then some (c.toNat - '0'.toNat)
  else if 'a' ≤ c && c ≤ 'f' then some (c.toNat - 'a'.toNat + 10)
  else if 'A' ≤ c && c ≤ 'F' then some (c.toNat - 'A'.toNat + 10)
  else none

/-- The character with a number in hexadecimal digits; surrogates are none. -/
def scalar? (digits : List Char) : Option Char := do
  let n ← digits.foldlM (fun n c => (hexDigit? c).map fun d => 16 * n + d) 0
  if h : n.isValidChar then some (Char.ofNatAux n h) else none

def escaped? (c : Char) : Option Char :=
  match c with
  | 'b' => some '\x08'
  | 't' => some '\t'
  | 'n' => some '\n'
  | 'f' => some '\x0c'
  | 'r' => some '\r'
  | 'e' => some '\x1b'
  | '"' => some '"'
  | '\\' => some '\\'
  | _ => none

/-- Put a character, if there is one, before what a reader gives. -/
def prepend (c : Option Char) (result : Option (List Char × List Char)) :
    Option (List Char × List Char) := do
  let (text, rest) ← result
  return ((← c) :: text, rest)

/-- A string on one line with escapes. -/
def readBasic : List Char → Option (List Char × List Char)
  | [] => none
  | '"' :: rest => some ([], rest)
  | '\\' :: 'x' :: a :: b :: rest => prepend (scalar? [a, b]) (readBasic rest)
  | '\\' :: 'u' :: a :: b :: c :: d :: rest => prepend (scalar? [a, b, c, d]) (readBasic rest)
  | '\\' :: 'U' :: a :: b :: c :: d :: e :: f :: g :: h :: rest =>
    prepend (scalar? [a, b, c, d, e, f, g, h]) (readBasic rest)
  | '\\' :: c :: rest => prepend (escaped? c) (readBasic rest)
  | c :: rest => if isControl c then none else prepend (some c) (readBasic rest)

/-- A string on one line as it stands. -/
def readLiteral : List Char → Option (List Char × List Char)
  | [] => none
  | '\'' :: rest => some ([], rest)
  | c :: rest => if isControl c then none else prepend (some c) (readLiteral rest)

/-- A line end right behind the opening quotes is no part of the string. -/
def dropLineEnd : List Char → List Char
  | '\n' :: rest => rest
  | '\r' :: '\n' :: rest => rest
  | cs => cs

/-- Where a reader of several lines stands: in the text, behind a backslash that ends a line, or
in the blanks and line ends after such a line. -/
inductive LineMode where
  | text
  | lineEnd
  | blanks
deriving DecidableEq

/-- A string on several lines with escapes. Up to two quotes may stand before the closing ones. -/
def readLongBasic (mode : LineMode) : List Char → Option (List Char × List Char)
  | [] => none
  | c :: rest =>
    match mode with
    | .lineEnd =>
      if isBlank c then readLongBasic .lineEnd rest
      else if c == '\n' then readLongBasic .blanks rest
      else if c == '\r' then
        match rest with
        | '\n' :: rest => readLongBasic .blanks rest
        | _ => none
      else none
    | .text | .blanks =>
      if mode = .blanks && (isBlank c || c == '\n') then readLongBasic .blanks rest
      else match c, rest with
        | '"', '"' :: '"' :: '"' :: '"' :: rest => some (['"', '"'], rest)
        | '"', '"' :: '"' :: '"' :: rest => some (['"'], rest)
        | '"', '"' :: '"' :: rest => some ([], rest)
        | '\\', 'x' :: a :: b :: rest => prepend (scalar? [a, b]) (readLongBasic .text rest)
        | '\\', 'u' :: a :: b :: c :: d :: rest =>
          prepend (scalar? [a, b, c, d]) (readLongBasic .text rest)
        | '\\', 'U' :: a :: b :: c :: d :: e :: f :: g :: h :: rest =>
          prepend (scalar? [a, b, c, d, e, f, g, h]) (readLongBasic .text rest)
        | '\\', c :: rest =>
          if isBlank c then readLongBasic .lineEnd rest
          else if c == '\n' then readLongBasic .blanks rest
          else if c == '\r' then
            match rest with
            | '\n' :: rest => readLongBasic .blanks rest
            | _ => none
          else prepend (escaped? c) (readLongBasic .text rest)
        | '\r', '\n' :: rest =>
          if mode = .blanks then readLongBasic .blanks rest
          else prepend (some '\r') (prepend (some '\n') (readLongBasic .text rest))
        | c, rest =>
          if isControl c && c != '\n' then none
          else prepend (some c) (readLongBasic .text rest)

/-- A string on several lines as it stands. -/
def readLongLiteral : List Char → Option (List Char × List Char)
  | [] => none
  | '\'' :: '\'' :: '\'' :: '\'' :: '\'' :: rest => some (['\'', '\''], rest)
  | '\'' :: '\'' :: '\'' :: '\'' :: rest => some (['\''], rest)
  | '\'' :: '\'' :: '\'' :: rest => some ([], rest)
  | '\r' :: '\n' :: rest =>
    prepend (some '\r') (prepend (some '\n') (readLongLiteral rest))
  | c :: rest =>
    if isControl c && c != '\n' then none else prepend (some c) (readLongLiteral rest)

/-- A string in any of its spellings. -/
def readString : List Char → Option (List Char × List Char)
  | '"' :: '"' :: '"' :: rest => readLongBasic .text (dropLineEnd rest)
  | '\'' :: '\'' :: '\'' :: rest => readLongLiteral (dropLineEnd rest)
  | '"' :: rest => readBasic rest
  | '\'' :: rest => readLiteral rest
  | _ => none

end ReleaseWeaver.Toml
