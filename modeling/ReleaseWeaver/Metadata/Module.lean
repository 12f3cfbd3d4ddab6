import ReleaseWeaver.Code.StackCheck
import ReleaseWeaver.Metadata.Definition
import ReleaseWeaver.Reference.Version

/-
  Modules. A module lists its types in the order they were added, each under its own definition
  name, which no other type has. Local types are its own; imported types are metadata of
  referenced assemblies. Methods and properties are also logged in the order they came in,
  whatever type they belong to.
-/

namespace ReleaseWeaver

structure Module where
  name : String
  references : List AssemblyRef := []
  types : List TypeDef := []
  methodLog : List MethodKey := []
  propertyLog : List PropertyKey := []
  names_nodup : (types.map TypeDef.definitionName).Nodup := by simp

instance : Inhabited Module := ⟨{ name := "" }⟩

/-- A definition that would share its name with another one. -/
inductive DuplicateError where
  | type (name : String)
  | member (owner name : String)
deriving DecidableEq, Repr

def DuplicateError.message : DuplicateError → String
  | .type name => "A type named `" ++ name ++ "` is already defined in the module."
  | .member owner name =>
    "Type `" ++ owner ++ "` already declares a member named `" ++ name ++ "`."

namespace Module

def addReference (m : Module) (a : AssemblyRef) : Module :=
  { m with references := m.references ++ [a] }

def removeReferences (m : Module) (name : String) : Module :=
  { m with references := m.references.filter fun a => a.name != name }

/-- The highest version of a referenced assembly; among equals the last. -/
def findReference? (m : Module) (name : String) : Option AssemblyRef :=
  (m.references.filter fun a => a.name == name).foldl (fun best a => match best with
    | some b => if b.version.order a.version = .gt then some b else some a
    | none => some a) none

def localTypes (m : Module) : List TypeDef := m.types.filter TypeDef.isLocal

def findType? (m : Module) (definitionName : String) : Option TypeDef :=
  m.types.find? fun t => t.definitionName == definitionName

/-- The definition that a reference instantiates; a generic parameter has none. -/
def resolve? (m : Module) (t : TypeRef) : Option TypeDef :=
  if t.isParam then none else m.findType? t.definitionName

/-- The parent of a type, if the module knows it. -/
def baseOf? (m : Module) (t : TypeDef) : Option TypeDef := t.base.bind m.resolve?

def findMethod? (m : Module) (key : MethodKey) : Option MethodDef :=
  (m.findType? key.owner).bind fun t => t.methods[key.index]?

def methodRef? (m : Module) (key : MethodKey) : Option MethodRef :=
  (m.findType? key.owner).bind fun t => t.methods[key.index]?.map t.methodRef

def addType (m : Module) (t : TypeDef) : Except DuplicateError Module :=
  if taken : (m.findType? t.definitionName).isSome then .error (.type t.definitionName)
  else .ok { m with
    types := m.types ++ [{ t with fields := [], methods := [], properties := [] }]
    names_nodup := by
      have fresh : ∀ u ∈ m.types, u.definitionName ≠ t.definitionName := by
        simpa [findType?] using taken
      rw [List.map_append, List.nodup_append]
      refine ⟨m.names_nodup, by simp, fun name listed name' here => ?_⟩
      obtain ⟨u, known, rfl⟩ := List.mem_map.1 listed
      rw [List.mem_singleton.1 here]
      exact fresh u known }

/-- Change a type of that name; it keeps its name. -/
def changeNamed (name : String) (f : TypeDef → TypeDef) (t : TypeDef) : TypeDef :=
  if t.definitionName == name then { f t with ns := t.ns, name := t.name } else t

@[simp] theorem definitionName_changeNamed (name : String) (f : TypeDef → TypeDef)
    (t : TypeDef) : (changeNamed name f t).definitionName = t.definitionName := by
  unfold changeNamed
  split <;> rfl

/-- Change the type of that name. -/
def modifyType (m : Module) (name : String) (f : TypeDef → TypeDef) : Module :=
  { m with
    types := m.types.map (changeNamed name f)
    names_nodup := by
      rw [List.map_map, show TypeDef.definitionName ∘ changeNamed name f =
        TypeDef.definitionName from funext (definitionName_changeNamed name f)]
      exact m.names_nodup }

def modifyMethod (m : Module) (key : MethodKey) (f : MethodDef → MethodDef) : Module :=
  m.modifyType key.owner fun t => { t with methods := t.methods.modify key.index f }

def modifyBody (m : Module) (key : MethodKey) (f : Body → Body) : Module :=
  m.modifyMethod key fun d => { d with body := d.body.map f }

/-- The key that the next method added to a type gets. -/
def nextMethodKey (m : Module) (owner : String) : MethodKey :=
  ⟨owner, ((m.findType? owner).map fun t => t.methods.length).getD 0⟩

/-- Methods may share a name, so each is accepted. -/
def addMethod (m : Module) (owner : String) (d : MethodDef) : Module :=
  { m.modifyType owner fun t => { t with methods := t.methods ++ [d] } with
    methodLog := m.methodLog ++ [m.nextMethodKey owner] }

def declaresField (m : Module) (owner name : String) : Bool :=
  ((m.findType? owner).map fun t => t.fields.any fun f => f.name == name).getD false

def declaresProperty (m : Module) (owner name : String) : Bool :=
  ((m.findType? owner).map fun t => t.properties.any fun p => p.name == name).getD false

def addField (m : Module) (owner : String) (d : FieldDef) : Except DuplicateError Module :=
  if m.declaresField owner d.name then .error (.member owner d.name)
  else .ok (m.modifyType owner fun t => { t with fields := t.fields ++ [d] })

def addProperty (m : Module) (owner : String) (d : PropertyDef) : Except DuplicateError Module :=
  if m.declaresProperty owner d.name then .error (.member owner d.name)
  else .ok { m.modifyType owner fun t => { t with properties := t.properties ++ [d] } with
    propertyLog := m.propertyLog ++ [⟨owner, d.name⟩] }

/-- The bodies of the local methods, in declaration order. -/
def localBodies (m : Module) : List (MethodKey × MethodDef × Body) :=
  m.localTypes.flatMap fun t => t.keyedMethods.filterMap fun (key, d) =>
    d.body.map fun b => (key, d, b)

/-- Check the evaluation stack of every local body; the first failure counts. -/
def verify (m : Module) : Except FlowError Unit :=
  m.localBodies.forM fun (_, d, b) => (b.verifyStack d.returns.isSome).map fun _ => ()

end Module

end ReleaseWeaver
