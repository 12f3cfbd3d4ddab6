/-
  Values of a TOML document. A table remembers how it came about, which decides what may still be
  added to it: by a header of its own, as a step on the way of a header, by a dotted key, or in
  braces, when nothing more may be added.
-/

namespace ReleaseWeaver.Toml

inductive TableKind where
  | header
  | onTheWay
  | dotted
  | inline
deriving DecidableEq, Inhabited, Repr

inductive Value where
  | string (s : String)
  | integer (n : Int)
  | float
  | boolean (b : Bool)
  | dateTime
  | array (items : List Value)
  | table (kind : TableKind) (entries : List (String × Value))
  /-- The tables of an array-of-tables header, the latest last. -/
  | tables (items : List (List (String × Value)))
deriving Inhabited

/-- Entries in the order they were written. -/
abbrev Entries := List (String × Value)

namespace Entries

def replace (entries : Entries) (key : String) (v : Value) : Entries :=
  entries.map fun e => if e.1 == key then (key, v) else e

/-- A new entry; a key that is taken is refused. -/
def add? (key : String) (v : Value) (entries : Entries) : Option Entries :=
  match entries.lookup key with
  | some _ => none
  | none => some (entries ++ [(key, v)])

/-- Change the table that a path leads to. The missing tables of the path are made with `kind`;
`enters` tells which tables may be gone through, and `arrays` whether the latest table of an array
of tables may. -/
def update? (kind : TableKind) (enters : TableKind → Bool) (arrays : Bool)
    (change : Entries → Option Entries) : List String → Entries → Option Entries
  | [], entries => change entries
  | key :: path, entries =>
    match entries.lookup key with
    | none => do
      let inner ← update? kind enters arrays change path []
      return entries ++ [(key, .table kind inner)]
    | some (.table known inner) =>
      if enters known then do
        let inner ← update? kind enters arrays change path inner
        return entries.replace key (.table known inner)
      else none
    | some (.tables items) =>
      if arrays then
        match items.getLast? with
        | some latest => do
          let latest ← update? kind enters arrays change path latest
          return entries.replace key (.tables (items.dropLast ++ [latest]))
        | none => none
      else none
    | some _ => none

/-- Add a value under a dotted key. Tables with a header of their own and inline tables are
closed to dotted keys. -/
def addDotted? (path : List String) (key : String) (v : Value) (entries : Entries) :
    Option Entries :=
  update? .dotted (fun kind => kind == .dotted || kind == .onTheWay) false (add? key v) path
    entries

/-- Change a table by the path of a header. -/
def updateHeader? (change : Entries → Option Entries) (path : List String) (entries : Entries) :
    Option Entries :=
  update? .onTheWay (fun kind => kind != .inline) true change path entries

/-- Open the table of a header. -/
def openTable? (key : String) (entries : Entries) : Option Entries :=
  match entries.lookup key with
  | none => some (entries ++ [(key, .table .header [])])
  | some (.table .onTheWay inner) => some (entries.replace key (.table .header inner))
  | some _ => none

/-- Open a further table of an array of tables. -/
def openTables? (key : String) (entries : Entries) : Option Entries :=
  match entries.lookup key with
  | none => some (entries ++ [(key, .tables [[]])])
  | some (.tables items) => some (entries.replace key (.tables (items ++ [[]])))
  | some _ => none

end Entries

end ReleaseWeaver.Toml
