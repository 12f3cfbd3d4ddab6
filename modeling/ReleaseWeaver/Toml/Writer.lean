import ReleaseWeaver.Toml.Text

/-
  Strings written for a TOML document: in the plainest of the spellings that can hold them. A
  basic string escapes what it must; a literal string holds no control character; a string with a
  line end goes over several lines.
-/

namespace ReleaseWeaver.Toml

inductive Spelling where
  | basic
  | literal
  | longBasic
  | longLiteral
deriving DecidableEq, Inhabited, Repr

def isPlain (c : Char) : Bool :=
  c.isAlphanum || c == '_' || c == '-' || c == '.' || c == '/' || c == ' ' || c == ':'

/-- Whether `count` of a character stand in a row; `seen` of them stand right before. -/
def hasRun (mark : Char) (count seen : Nat) : List Char → Bool
  | [] => seen ≥ count
  | c :: cs => seen ≥ count || hasRun mark count (if c == mark then seen + 1 else 0) cs

def spelling (cs : List Char) : Spelling :=
  let controls := cs.any fun c => isControl c && c != '\n'
  let lines := cs.contains '\n'
  if cs.all isPlain then .basic
  else if !controls && !cs.contains '\\' && !cs.contains '"' && !lines then .basic
  else if !controls && !cs.contains '\'' && !lines then .literal
  else if !controls && !cs.contains '\\' && !hasRun '"' 3 0 cs then .longBasic
  else if !controls && !hasRun '\'' 3 0 cs then .longLiteral
  else if lines then .longBasic
  else .basic

/-- The last four hexadecimal digits of a number, in upper case. -/
def fourHex (n : Nat) : List Char :=
  [n / 4096, n / 256, n / 16, n].map fun k => (Nat.digitChar (k % 16)).toUpper

/-- The escape of a character other than the quote. -/
def escape (c : Char) : List Char :=
  if c == '\x08' then ['\\', 'b']
  else if c == '\t' then ['\\', 't']
  else if c == '\x0c' then ['\\', 'f']
  else if c == '\r' then ['\\', 'r']
  else if c == '\\' then ['\\', '\\']
  else if isControl c then '\\' :: 'u' :: fourHex c.toNat
  else [c]

def basicBody (cs : List Char) : List Char :=
  cs.flatMap fun c =>
    if c == '"' then ['\\', '"'] else if c == '\n' then ['\\', 'n'] else escape c

/-- Over several lines, the third quote of a row is escaped; `seen` stand right before. -/
def longBasicBody (seen : Nat) : List Char → List Char
  | [] => []
  | c :: cs =>
    if c == '"' then
      if seen ≥ 2 then '\\' :: '"' :: longBasicBody 0 cs else '"' :: longBasicBody (seen + 1) cs
    else if c == '\n' then '\n' :: longBasicBody 0 cs
    else escape c ++ longBasicBody 0 cs

/-- A line end goes before a string that has one itself. -/
def firstLine (cs : List Char) : List Char := if cs.contains '\n' then ['\n'] else []

def writeChars (cs : List Char) : List Char :=
  match spelling cs with
  | .basic => '"' :: basicBody cs ++ ['"']
  | .literal => '\'' :: cs ++ ['\'']
  | .longBasic => ['"', '"', '"'] ++ firstLine cs ++ longBasicBody 0 cs ++ ['"', '"', '"']
  | .longLiteral => ['\'', '\'', '\''] ++ firstLine cs ++ cs ++ ['\'', '\'', '\'']

/-- The spelling of a string with its quotes. -/
def writeString (s : String) : String := String.ofList (writeChars s.toList)

/-- One line per key. -/
def writeEntries (entries : List (String × String)) : String :=
  String.join (entries.map fun (key, v) => key ++ " = " ++ writeString v ++ "\n")

/-- A table of strings behind a blank line. -/
def writeTable (name : String) (entries : List (String × String)) : String :=
  "\n[" ++ name ++ "]\n" ++ writeEntries entries

end ReleaseWeaver.Toml
