import ReleaseWeaver.Metadata.Module
import ReleaseWeaver.Weave.Error
import ReleaseWeaver.Weave.HandleCall

/-
  Tracking: the field that holds the container of an object, the prologue that fills it at the
  head of every instance constructor, and the registration that follows every handle call.
-/

namespace ReleaseWeaver

def trackingFieldName (start typeName : String) : String := start ++ typeName

/-- Give a type its tracking field; the reference is over the type's own parameters. -/
def Module.addTrackingField (m : Module) (t : TypeDef) (start : String) (container : TypeRef) :
    Except WeaveError (Module × FieldRef) :=
  let field : FieldDef := { name := trackingFieldName start t.name, type := container }
  if m.declaresField t.definitionName field.name then
    .error (.trackingFieldExists t.definitionName)
  else match m.addField t.definitionName field with
    | .ok m' => .ok (m', t.fieldRef field)
    | .error e => .error (.duplicate e)

/-- Store a fresh container in the field. -/
def prologue (field : FieldRef) (constructor : MethodRef) : List Instr :=
  [.ldthis, .newobj constructor, .stfld field]

/-- An instance constructor that has instructions. -/
def MethodDef.takesPrologue (d : MethodDef) : Bool :=
  d.isConstructor && !d.isStatic && (d.body.map fun b => !b.isEmpty).getD false

/-- Put the run before the first instruction; a branch to that one skips the run. -/
def MethodDef.withPrologue (d : MethodDef) (run : List Instr) : MethodDef :=
  if d.takesPrologue then { d with body := d.body.map fun b => b.insertAt 0 run } else d

/-- Put the prologue into the constructors of a type, and count them. -/
def Module.instrumentConstructors (m : Module) (typeName : String) (field : FieldRef)
    (constructor : MethodRef) : Module × Nat :=
  (m.modifyType typeName fun t =>
      { t with methods := t.methods.map fun d => d.withPrologue (prologue field constructor) },
    ((m.findType? typeName).map fun t => t.methods.countP MethodDef.takesPrologue).getD 0)

/-- Pass the handle on the stack through the helper, together with the container. -/
def registration (field : FieldRef) (helper : MethodRef) : List Instr :=
  [.ldthis, .ldfld field, .call helper]

/-- Insert a run after each of some instructions; stops at the first unknown one. -/
def Body.insertAfterEach (run : List Instr) :
    List Handle → Body → Body × Except UnknownInstruction Unit
  | [], b => (b, .ok ())
  | h :: rest, b => match b.insertAfter h run with
    | .ok b' => insertAfterEach run rest b'
    | .error e => (b, .error e)

/-- Register the handles that some calls produce. -/
def Body.register (b : Body) (field : FieldRef) (helper : MethodRef) (calls : List Handle) :
    Body × Except UnknownInstruction Nat :=
  let (b', result) := Body.insertAfterEach (registration field helper) calls b
  (b', result.map fun _ => calls.length)

end ReleaseWeaver
