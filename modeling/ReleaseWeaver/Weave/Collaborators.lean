import ReleaseWeaver.Config.Basic
import ReleaseWeaver.Metadata.Hierarchy
import ReleaseWeaver.Weave.Error

/-
  The collaborators that woven code calls: the disposal contract, the container that holds the
  handles of an object, and the helper that puts a handle into it. Each is looked up in the
  imported metadata of the assembly that the configuration names.
-/

namespace ReleaseWeaver

structure Collaborators where
  contract : TypeRef
  contractRelease : MethodRef
  container : TypeRef
  containerConstructor : MethodRef
  containerRelease : MethodRef
  /-- `static Contract Helper(Contract handle, Container container)` -/
  helper : MethodRef
deriving Repr

namespace Module

def requireReference (m : Module) (name : String) : Except BindingError AssemblyRef :=
  match m.findReference? name with
  | some a => .ok a
  | none => .error (.missingAssembly name (m.references.map AssemblyRef.name))

/-- An imported type of the assembly that the symbol names. -/
def resolveSymbol (m : Module) (symbol : TypeSymbol) : Except BindingError TypeDef := do
  let _ ← m.requireReference symbol.assembly
  match m.findType? symbol.name with
  | some t =>
    if t.importedFrom == some symbol.assembly then return t
    else throw (.missingType symbol.name symbol.assembly)
  | none => throw (.missingType symbol.name symbol.assembly)

end Module

namespace Collaborators

/-- The first method of a type that fits, as a reference. -/
def requireMethod (t : TypeDef) (member : String) (fits : MethodDef → Bool) :
    Except BindingError MethodRef :=
  match t.methods.find? fits with
  | some method => .ok (t.methodRef method)
  | none => .error (.missingMember t.definitionName member)

def isRelease (name : String) (method : MethodDef) : Bool :=
  method.name == name && method.params.isEmpty && !method.isConstructor

def isDefaultConstructor (method : MethodDef) : Bool :=
  method.isConstructor && !method.isStatic && method.params.isEmpty

def hasHelperSignature (contract container : TypeRef) (method : MethodDef) : Bool :=
  method.isStatic && method.params == [contract, container] && method.returns == some contract

/-- The only method of that name, if it has the helper's signature. -/
def requireHelper (t : TypeDef) (member : String) (contract container : TypeRef) :
    Except BindingError MethodRef :=
  match t.methods.filter fun method => method.name == member with
  | [method] =>
    if hasHelperSignature contract container method then .ok (t.methodRef method)
    else .error (.missingMember t.definitionName member)
  | _ => .error (.missingMember t.definitionName member)

def resolve (m : Module) (c : Config) : Except BindingError Collaborators := do
  let contract ← m.resolveSymbol c.disposalContract
  let contractRelease ← requireMethod contract c.releaseMethod (isRelease c.releaseMethod)
  let container ← m.resolveSymbol c.trackingContainer
  let containerConstructor ← requireMethod container ".ctor()" isDefaultConstructor
  let containerRelease ← requireMethod container c.releaseMethod (isRelease c.releaseMethod)
  let helperType ← m.resolveSymbol ⟨c.registrationHelper.type, c.registrationHelper.assembly⟩
  let helper ← requireHelper helperType c.registrationHelper.member
    contract.openRef container.openRef
  return { contract := contract.openRef, contractRelease, container := container.openRef,
           containerConstructor, containerRelease, helper }

/-- What a property must be assignable to so that its value is released as a command. -/
def resolveCapability (m : Module) (c : Config) : Except BindingError TypeRef := do
  return (← m.resolveSymbol c.commandCapability).openRef

end Collaborators

end ReleaseWeaver
