/-
  References to types. A reference names a type, possibly of another assembly, with generic
  arguments; or it names a generic parameter of the enclosing definition. The scope tells the
  assembly a reference points into and is no part of its identity: `==` passes over it, at
  every depth.
-/

namespace ReleaseWeaver

inductive TypeRef where
  | named (ns name : String) (scope : Option String) (args : List TypeRef)
  | param (name : String)
deriving Inhabited, Repr

/-- A value that is fed to a hasher. Two values whose words are the same have the same hash under
every hasher. -/
inductive HashWord where
  | flag (value : Bool)
  | text (value : String)
  /-- The number of elements that follow. -/
  | length (count : Nat)
deriving DecidableEq, Hashable, Repr

/-- A name behind its namespace, if it has one. -/
def qualify (ns name : String) : String :=
  if ns.isEmpty then name else ns ++ "." ++ name

namespace TypeRef

mutual

/-- The same type, whatever the scopes. -/
def sameAs : TypeRef → TypeRef → Bool
  | .named ns name _ args, .named ns' name' _ args' =>
    ns == ns' && name == name' && sameArgs args args'
  | .param name, .param name' => name == name'
  | _, _ => false

def sameArgs : List TypeRef → List TypeRef → Bool
  | [], [] => true
  | a :: as, b :: bs => sameAs a b && sameArgs as bs
  | _, _ => false

end

instance : BEq TypeRef := ⟨sameAs⟩

mutual

/-- What a reference feeds to a hasher, in this order. The scopes are passed over, as by `==`. -/
def hashWords : TypeRef → List HashWord
  | .named ns name _ args =>
    .flag false :: .text ns :: .text name :: .length args.length :: argsHashWords args
  | .param name => [.flag true, .text "", .text name, .length 0]

def argsHashWords : List TypeRef → List HashWord
  | [] => []
  | a :: as => hashWords a ++ argsHashWords as

end

instance : Hashable TypeRef := ⟨fun t => hash t.hashWords⟩

/-- A reference by namespace and name alone. -/
def plain (ns name : String) : TypeRef := .named ns name none []

/-- Everything before the last dot is the namespace. -/
def ofFullName (fullName : String) : TypeRef :=
  let (name, rest) := fullName.toList.reverse.span (· != '.')
  plain (String.ofList (rest.drop 1).reverse) (String.ofList name.reverse)

def ns : TypeRef → String
  | .named ns _ _ _ => ns
  | .param _ => ""

def name : TypeRef → String
  | .named _ name _ _ => name
  | .param name => name

def scope : TypeRef → Option String
  | .named _ _ scope _ => scope
  | .param _ => none

def args : TypeRef → List TypeRef
  | .named _ _ _ args => args
  | .param _ => []

def isParam : TypeRef → Bool
  | .named .. => false
  | .param _ => true

def inScope (assembly : String) : TypeRef → TypeRef
  | .named ns name _ args => .named ns name (some assembly) args
  | .param name => .param name

def withArgs (args : List TypeRef) : TypeRef → TypeRef
  | .named ns name scope _ => .named ns name scope args
  | .param name => .param name

def isGenericInstance (t : TypeRef) : Bool := !t.args.isEmpty

/-- The name of the definition that the reference instantiates. -/
def definitionName (t : TypeRef) : String := qualify t.ns t.name

/-- The same reference without generic arguments. -/
def definition (t : TypeRef) : TypeRef := t.withArgs []

mutual

/-- The definition's name and the arguments in angle brackets. -/
def fullName : TypeRef → String
  | .named ns name _ args => qualify ns name ++ bracketed (fullNames args)
  | .param name => name

def fullNames : List TypeRef → List String
  | [] => []
  | a :: as => fullName a :: fullNames as

/-- No argument, no brackets. -/
def bracketed : List String → String
  | [] => ""
  | texts => "<" ++ String.intercalate "," texts ++ ">"

end

end TypeRef

end ReleaseWeaver
