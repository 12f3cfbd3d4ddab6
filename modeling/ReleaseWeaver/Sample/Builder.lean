import ReleaseWeaver.Sample.Metadata

/-
  Building models: local types put together member by member. A model whose name is taken, or a
  field or property whose name the model has already, ends the building; what was built stays.
-/

namespace ReleaseWeaver.Sample

inductive BuildError where
  | model (e : DuplicateError)
  | field (e : DuplicateError)
  | property (e : DuplicateError)
deriving DecidableEq, Repr

/-- The data of a clash of names. -/
def clashText : DuplicateError → String
  | .type name => "DuplicateType(" ++ Text.Quoted.quote name ++ ")"
  | .member owner name =>
    "DuplicateMember \x7b type_name: " ++ Text.Quoted.quote owner ++ ", member: "
      ++ Text.Quoted.quote name ++ " \x7d"

def BuildError.message : BuildError → String
  | .model e => "fixture model names are unique: " ++ clashText e
  | .field e => "fixture fields are unique: " ++ clashText e
  | .property e => "fixture properties are unique: " ++ clashText e

abbrev Building := EStateM BuildError Module

/-- A model in the making. -/
structure Model where
  typeName : String
  /-- What its constructors call first, if they name nothing else. -/
  baseConstructor : MethodRef
deriving Inhabited

namespace Model

def startType (t : TypeDef) (baseConstructor : MethodRef) : Building Model := do
  match (← get).addType t with
  | .ok m =>
    set m
    return { typeName := t.definitionName, baseConstructor }
  | .error e => throw (.model e)

/-- Start a model of the sample namespace that extends `base`. -/
def extending (name : String) (base : TypeRef) (baseConstructor : MethodRef) : Building Model :=
  startType { ns := modelsNamespace, name, base := some base } baseConstructor

/-- Start a model that extends `BaseModel`. -/
def named (name : String) : Building Model :=
  extending name (Sample.model "BaseModel") (constructorOf (Sample.model "BaseModel") [])

def modifyType (model : Model) (f : TypeDef → TypeDef) : Building Unit :=
  modify fun m => m.modifyType model.typeName f

def mark (model : Model) (marker : TypeRef) : Building Unit :=
  model.modifyType fun t => { t with attributes := t.attributes ++ [marker] }

def generic (model : Model) (param : String) : Building Unit :=
  model.modifyType fun t => { t with generics := t.generics ++ [param] }

def definition (model : Model) : Building TypeDef := do
  return ((← get).findType? model.typeName).getD default

def selfRef (model : Model) : Building TypeRef := do
  return (← model.definition).selfRef

def addField (model : Model) (d : FieldDef) : Building FieldRef := do
  match (← get).addField model.typeName d with
  | .ok m =>
    set m
    return (← model.definition).fieldRef d
  | .error e => throw (.field e)

/-- A public field. -/
def field (model : Model) (name : String) (type : TypeRef) : Building FieldRef :=
  model.addField { name, type, visibility := .publicAccess }

def addMethod (model : Model) (d : MethodDef) : Building MethodKey := do
  let key := (← get).nextMethodKey model.typeName
  modify fun m => m.addMethod model.typeName d
  return key

/-- A method whose body is exactly `code`. -/
def method (model : Model) (d : MethodDef) (code : List Instr) (locals : List TypeRef := []) :
    Building MethodKey :=
  model.addMethod { d with body := some ((Body.ofInstrs code).withLocals locals) }

/-- The arguments 1, 2, … that a constructor passes on. -/
def forwarded (count : Nat) : List Instr :=
  (List.range' 1 count).map fun index => .ldarg index.toUInt16

/-- A constructor that calls `base` with the leading arguments, runs `code` and returns. -/
def constructorCalling (model : Model) (base : MethodRef) (params : List TypeRef)
    (code : List Instr) (markers : List TypeRef := []) : Building MethodKey :=
  model.method { MethodDef.constructor with params, attributes := markers }
    (.ldthis :: forwarded base.params.length ++ .call base :: code ++ [.ret])

def constructor (model : Model) (params : List TypeRef) (code : List Instr)
    (markers : List TypeRef := []) : Building MethodKey :=
  model.constructorCalling model.baseConstructor params code markers

/-- A method without result that runs `code` and returns. -/
def voidMethod (model : Model) (name : String) (code : List Instr)
    (markers : List TypeRef := []) : Building MethodKey :=
  model.method { name, attributes := markers } (code ++ [.ret])

/-- An overriding teardown that runs `code` and returns. -/
def teardown (model : Model) (code : List Instr) : Building MethodKey :=
  model.method { name := "Dispose", flags := .overridable } (code ++ [.ret])

/-- A property with a getter over a private field; the reference is to the field. -/
def autoProperty (model : Model) (name : String) (type : TypeRef)
    (markers : List TypeRef := []) : Building FieldRef := do
  let backing ← model.addField { name := "<" ++ name ++ ">k__BackingField", type }
  let getter ← model.method
    { name := "get_" ++ name, returns := some type,
      flags := { hidesBySignature := true, specialName := true } }
    [.ldthis, .ldfld backing, .ret]
  match (← get).addProperty model.typeName
      { name, type, getter := some getter, attributes := markers } with
  | .ok m =>
    set m
    return backing
  | .error e => throw (.property e)

end Model

end ReleaseWeaver.Sample
