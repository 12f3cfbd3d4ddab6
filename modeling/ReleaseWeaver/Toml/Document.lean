import ReleaseWeaver.Toml.Scalar
import ReleaseWeaver.Toml.Text

/-
  TOML documents, version 1.1: lines with headers and lines with keys and values, put together
  into one table. Arrays and inline tables nest at most 80 deep.
-/

namespace ReleaseWeaver.Toml

/-- Skip blanks, line ends and comments; a control character in a comment is refused. -/
def skipTrivia (inComment : Bool) : List Char → Option (List Char)
  | [] => some []
  | '\n' :: rest => skipTrivia false rest
  | '\r' :: '\n' :: rest => skipTrivia false rest
  | c :: rest =>
    if inComment then
      if isControl c then none else skipTrivia true rest
    else if isBlank c then skipTrivia false rest
    else if c == '#' then skipTrivia true rest
    else some (c :: rest)

def skipBlanks (cs : List Char) : List Char := cs.dropWhile isBlank

/-- The rest of a line: blanks and perhaps a comment. -/
def endLine (inComment : Bool) : List Char → Option (List Char)
  | [] => some []
  | '\n' :: rest => some rest
  | '\r' :: '\n' :: rest => some rest
  | c :: rest =>
    if inComment then
      if isControl c then none else endLine true rest
    else if isBlank c then endLine false rest
    else if c == '#' then endLine true rest
    else none

def isBareKeyChar (c : Char) : Bool := c.isAlphanum || c == '_' || c == '-'

def readSimpleKey : List Char → Option (String × List Char)
  | '"' :: rest => (readBasic rest).map fun (text, rest) => (String.ofList text, rest)
  | '\'' :: rest => (readLiteral rest).map fun (text, rest) => (String.ofList text, rest)
  | cs =>
    let key := cs.takeWhile isBareKeyChar
    if key.isEmpty then none else some (String.ofList key, cs.dropWhile isBareKeyChar)

/-- Keys between dots, at most `count`. -/
def readKeys : Nat → List Char → Option (List String × List Char)
  | 0, _ => none
  | count + 1, cs => do
    let (key, rest) ← readSimpleKey (skipBlanks cs)
    match skipBlanks rest with
    | '.' :: rest => do
      let (keys, rest) ← readKeys count rest
      return (key :: keys, rest)
    | rest => return ([key], rest)

/-- A key with the keys that lead to it. -/
def readKey (cs : List Char) : Option (List String × String × List Char) := do
  let (keys, rest) ← readKeys cs.length cs
  return (keys.dropLast, ← keys.getLast?, rest)

/-- The items of an array, behind the bracket; at most `count`. -/
def readItems (readItem : List Char → Option (Value × List Char)) :
    Nat → List Char → Option (List Value × List Char)
  | 0, _ => none
  | count + 1, cs => do
    match ← skipTrivia false cs with
    | ']' :: rest => return ([], rest)
    | cs => do
      let (v, rest) ← readItem cs
      match ← skipTrivia false rest with
      | ',' :: rest => do
        let (items, rest) ← readItems readItem count rest
        return (v :: items, rest)
      | ']' :: rest => return ([v], rest)
      | _ => none

/-- The entries of an inline table, behind the brace; at most `count`. -/
def readEntries (readItem : List Char → Option (Value × List Char)) :
    Nat → Entries → List Char → Option (Entries × List Char)
  | 0, _, _ => none
  | count + 1, entries, cs => do
    match ← skipTrivia false cs with
    | '\x7d' :: rest => return (entries, rest)
    | cs => do
      let (path, key, rest) ← readKey cs
      match skipBlanks rest with
      | '=' :: rest => do
        let (v, rest) ← readItem (skipBlanks rest)
        let entries ← entries.addDotted? path key v
        match ← skipTrivia false rest with
        | ',' :: rest => readEntries readItem count entries rest
        | '\x7d' :: rest => return (entries, rest)
        | _ => none
      | _ => none

/-- A value with at most `depth` brackets and braces inside each other. -/
def readValue : Nat → List Char → Option (Value × List Char)
  | depth, '"' :: rest => readText depth ('"' :: rest)
  | depth, '\'' :: rest => readText depth ('\'' :: rest)
  | 0, '[' :: _ => none
  | 0, '\x7b' :: _ => none
  | depth + 1, '[' :: rest =>
    (readItems (readValue depth) (rest.length + 1) rest).map fun (items, rest) =>
      (.array items, rest)
  | depth + 1, '\x7b' :: rest =>
    (readEntries (readValue depth) (rest.length + 1) [] rest).map fun (entries, rest) =>
      (.table .inline entries, rest)
  | _, cs => readScalar cs
where
  readText (_ : Nat) (cs : List Char) : Option (Value × List Char) :=
    (readString cs).map fun (text, rest) => (.string (String.ofList text), rest)

def nestingLimit : Nat := 80

/-- One line that says something. -/
inductive Line where
  | entry (path : List String) (key : String) (v : Value)
  | table (path : List String) (key : String)
  | tables (path : List String) (key : String)

def readLine : List Char → Option (Line × List Char)
  | '[' :: '[' :: rest => do
    let (path, key, rest) ← readKey rest
    match rest with
    | ']' :: ']' :: rest => return (.tables path key, ← endLine false rest)
    | _ => none
  | '[' :: rest => do
    let (path, key, rest) ← readKey rest
    match rest with
    | ']' :: rest => return (.table path key, ← endLine false rest)
    | _ => none
  | cs => do
    let (path, key, rest) ← readKey cs
    match rest with
    | '=' :: rest => do
      let (v, rest) ← readValue nestingLimit (skipBlanks rest)
      return (.entry path key v, ← endLine false rest)
    | _ => none

/-- The lines of a document, at most `count`. -/
def readLines : Nat → List Char → Option (List Line)
  | 0, _ => none
  | count + 1, cs => do
    match ← skipTrivia false cs with
    | [] => return []
    | cs => do
      let (line, rest) ← readLine cs
      return line :: (← readLines count rest)

/-- A document in the making: all entries, and the path of the latest header. -/
structure Draft where
  entries : Entries := []
  current : List String := []

def Draft.add? (d : Draft) : Line → Option Draft
  | .entry path key v => do
    return { d with entries := ← d.entries.updateHeader? (Entries.addDotted? path key v) d.current }
  | .table path key => do
    return ⟨← d.entries.updateHeader? (Entries.openTable? key) path, path ++ [key]⟩
  | .tables path key => do
    return ⟨← d.entries.updateHeader? (Entries.openTables? key) path, path ++ [key]⟩

/-- A byte order mark may stand in front. -/
def dropMark : List Char → List Char
  | '\ufeff' :: rest => rest
  | cs => cs

/-- Read a document. -/
def parse? (source : String) : Option Entries := do
  let cs := dropMark source.toList
  let lines ← readLines (cs.length + 1) cs
  return (← lines.foldlM Draft.add? {}).entries

end ReleaseWeaver.Toml
