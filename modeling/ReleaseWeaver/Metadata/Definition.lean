import ReleaseWeaver.Code.Body

/-
  Definitions of types and their members. A type owns its fields, methods and properties; a
  method is named by its type and its place in the type's list, a property by its type and name.
-/

namespace ReleaseWeaver

structure TypeFlags where
  isInterface : Bool := false
  isAbstract : Bool := false
  isSealed : Bool := false
deriving DecidableEq, Inhabited, Repr

/-- The words for the flags that are set. -/
def TypeFlags.words (f : TypeFlags) : List String :=
  ([("interface", f.isInterface), ("abstract", f.isAbstract), ("sealed", f.isSealed)].filter
    Prod.snd).map Prod.fst

def TypeFlags.ofWords (words : List String) : TypeFlags where
  isInterface := words.contains "interface"
  isAbstract := words.contains "abstract"
  isSealed := words.contains "sealed"

structure MethodFlags where
  isStatic : Bool := false
  isVirtual : Bool := false
  isAbstract : Bool := false
  /-- Takes over the slot of the inherited method. -/
  reusesSlot : Bool := false
  /-- Opens a slot of its own. -/
  newSlot : Bool := false
  hidesBySignature : Bool := false
  specialName : Bool := false
  isConstructor : Bool := false
  /-- Virtual, and closed to further overriding. -/
  isFinal : Bool := false
deriving DecidableEq, Inhabited, Repr

namespace MethodFlags

/-- The flags of either. -/
def union (a b : MethodFlags) : MethodFlags where
  isStatic := a.isStatic || b.isStatic
  isVirtual := a.isVirtual || b.isVirtual
  isAbstract := a.isAbstract || b.isAbstract
  reusesSlot := a.reusesSlot || b.reusesSlot
  newSlot := a.newSlot || b.newSlot
  hidesBySignature := a.hidesBySignature || b.hidesBySignature
  specialName := a.specialName || b.specialName
  isConstructor := a.isConstructor || b.isConstructor
  isFinal := a.isFinal || b.isFinal

/-- What a method needs so that a subtype can override it. -/
def overridable : MethodFlags where
  isVirtual := true
  reusesSlot := true
  hidesBySignature := true

/-- The words for the flags that are set. -/
def words (f : MethodFlags) : List String :=
  ([("static", f.isStatic), ("virtual", f.isVirtual), ("abstract", f.isAbstract),
    ("reuse_slot", f.reusesSlot), ("new_slot", f.newSlot), ("hide_by_sig", f.hidesBySignature),
    ("special_name", f.specialName), ("constructor", f.isConstructor),
    ("final", f.isFinal)].filter Prod.snd).map Prod.fst

/-- The flags that some words stand for; `overridable` stands for three. -/
def ofWords (words : List String) : MethodFlags :=
  let isOpen := words.contains "overridable"
  { isStatic := words.contains "static"
    isVirtual := words.contains "virtual" || isOpen
    isAbstract := words.contains "abstract"
    reusesSlot := words.contains "reuse_slot" || isOpen
    newSlot := words.contains "new_slot"
    hidesBySignature := words.contains "hide_by_sig" || isOpen
    specialName := words.contains "special_name"
    isConstructor := words.contains "constructor"
    isFinal := words.contains "final" }

/-- An inherited method that an override has taken the slot of. -/
def opened (f : MethodFlags) : MethodFlags := { f with newSlot := false }.union overridable

/-- The flags of an override of a method with the flags `f`. -/
def overriding (f : MethodFlags) : MethodFlags :=
  { f with newSlot := false, isAbstract := false, isFinal := false }.union overridable

@[simp] theorem opened_eq (f : MethodFlags) : f.opened =
    { f with newSlot := false, isVirtual := true, reusesSlot := true, hidesBySignature := true } := by
  simp [opened, union, overridable]

@[simp] theorem overriding_eq (f : MethodFlags) : f.overriding =
    { f with newSlot := false, isAbstract := false, isFinal := false,
             isVirtual := true, reusesSlot := true, hidesBySignature := true } := by
  simp [overriding, union, overridable]

end MethodFlags

structure FieldFlags where
  isStatic : Bool := false
  initOnly : Bool := false
deriving DecidableEq, Inhabited, Repr

def FieldFlags.words (f : FieldFlags) : List String :=
  ([("static", f.isStatic), ("init_only", f.initOnly)].filter Prod.snd).map Prod.fst

def FieldFlags.ofWords (words : List String) : FieldFlags where
  isStatic := words.contains "static"
  initOnly := words.contains "init_only"

inductive Visibility where
  | privateAccess
  | family
  | assembly
  | publicAccess
deriving DecidableEq, Inhabited, Repr

namespace Visibility

def text : Visibility → String
  | privateAccess => "private"
  | family => "family"
  | assembly => "assembly"
  | publicAccess => "public"

def ofText? (word : String) : Option Visibility :=
  [privateAccess, family, assembly, publicAccess].find? fun v => v.text == word

end Visibility

structure MethodKey where
  owner : String
  index : Nat
deriving DecidableEq, Inhabited, Repr

structure PropertyKey where
  owner : String
  name : String
deriving DecidableEq, Inhabited, Repr

structure FieldDef where
  name : String
  type : TypeRef
  visibility : Visibility := .privateAccess
  flags : FieldFlags := {}
deriving Inhabited

structure MethodDef where
  name : String
  returns : Option TypeRef := none
  params : List TypeRef := []
  flags : MethodFlags := { hidesBySignature := true }
  visibility : Visibility := .publicAccess
  attributes : List TypeRef := []
  /-- Methods that are abstract, external or imported have none. -/
  body : Option Body := none
deriving Inhabited

namespace MethodDef

/-- An instance constructor. -/
def constructor : MethodDef where
  name := constructorName
  flags := { hidesBySignature := true, specialName := true, isConstructor := true }

def isStatic (m : MethodDef) : Bool := m.flags.isStatic

def isConstructor (m : MethodDef) : Bool := m.flags.isConstructor

def hasBody (m : MethodDef) : Bool := m.body.isSome

/-- An instance method whose code a pass can change. -/
def isInstanceWithBody (m : MethodDef) : Bool := !m.isStatic && m.hasBody

def finalExit? (m : MethodDef) : Option Handle := m.body.bind Body.finalExit?

/-- Calls pick a method by its name and its number of parameters. -/
def answersTo (m : MethodDef) (name : String) (paramCount : Nat) : Bool :=
  m.name == name && m.params.length == paramCount

end MethodDef

structure PropertyDef where
  name : String
  type : TypeRef
  getter : Option MethodKey := none
  setter : Option MethodKey := none
  attributes : List TypeRef := []
deriving Inhabited

structure TypeDef where
  ns : String
  name : String
  /-- The assembly of an imported type; a local type has none. -/
  importedFrom : Option String := none
  base : Option TypeRef := none
  interfaces : List TypeRef := []
  generics : List String := []
  flags : TypeFlags := {}
  attributes : List TypeRef := []
  fields : List FieldDef := []
  methods : List MethodDef := []
  properties : List PropertyDef := []
deriving Inhabited

namespace TypeDef

def definitionName (t : TypeDef) : String := qualify t.ns t.name

def isLocal (t : TypeDef) : Bool := t.importedFrom.isNone

/-- The reference to the definition without arguments. -/
def openRef (t : TypeDef) : TypeRef := .named t.ns t.name t.importedFrom []

/-- The reference over the type's own generic parameters, as seen from inside. -/
def selfRef (t : TypeDef) : TypeRef := t.openRef.withArgs (t.generics.map TypeRef.param)

/-- The methods with their keys. -/
def keyedMethods (t : TypeDef) : List (MethodKey × MethodDef) :=
  t.methods.zipIdx.map fun (m, index) => (⟨t.definitionName, index⟩, m)

/-- The properties with their keys. -/
def keyedProperties (t : TypeDef) : List (PropertyKey × PropertyDef) :=
  t.properties.map fun p => (⟨t.definitionName, p.name⟩, p)

def constructors (t : TypeDef) : List (MethodKey × MethodDef) :=
  t.keyedMethods.filter fun (_, m) => m.isConstructor

def methodRef (t : TypeDef) (m : MethodDef) : MethodRef where
  declaring := t.selfRef
  name := m.name
  returns := m.returns
  params := m.params
  hasThis := !m.isStatic

def fieldRef (t : TypeDef) (f : FieldDef) : FieldRef where
  declaring := t.selfRef
  name := f.name
  type := f.type

/-- The name of a method behind its type. -/
def qualifiedName (t : TypeDef) (m : MethodDef) : String := t.definitionName ++ "::" ++ m.name

end TypeDef

end ReleaseWeaver
