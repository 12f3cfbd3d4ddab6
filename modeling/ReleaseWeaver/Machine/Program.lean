import ReleaseWeaver.Machine.Heap
import ReleaseWeaver.Metadata.Module

/-
  What a machine runs: a module, native code for methods that have no body, and a limit on the
  number of instructions. Native code works on the heap and may ask the machine for objects and
  calls. A call names a method; its code is found by walking up from a class, and a virtual call
  starts at the class of the receiver.
-/

namespace ReleaseWeaver.Machine

/-- An invocation of a method with its arguments, the receiver of an instance method first. -/
structure Call where
  method : MethodRef
  args : List Value
  isVirtual : Bool
deriving Inhabited, Repr

/-- What a host or native code asks a machine for. -/
inductive Request where
  /-- Make an object of a class and run its constructor. -/
  | construct (className : String) (args : List Value)
  /-- Call a method by name on an object, from the object's class upwards. -/
  | callByName (receiver : Value) (name : String) (args : List Value)
  | invoke (call : Call)
deriving Inhabited, Repr

/-- What a request comes to. -/
abbrev Outcome := Except ExecError (Option Value)

/-- Native code at work: at its end, or waiting for what it has asked for. With the outcome it
goes on and may change the heap. -/
inductive NativeWork where
  | done (outcome : Outcome)
  | ask (request : Request) (next : Heap → Outcome → Heap × NativeWork)

instance : Inhabited NativeWork := ⟨.done (.ok none)⟩

abbrev NativeCode := Heap → List Value → Heap × NativeWork

structure Program where
  module : Module
  /-- Native code by the name of the class and of the method. -/
  natives : String → Option NativeCode
  stepLimit : Nat := 100000

inductive Callee where
  | native (code : NativeCode)
  | body (key : MethodKey) (method : MethodDef) (body : Body)

namespace Program

def nativeName (className methodName : String) : String := className ++ "::" ++ methodName

/-- The method of a type with this name, number of parameters and a body. -/
def bodyIn? (t : TypeDef) (name : String) (paramCount : Nat) : Option Callee :=
  t.keyedMethods.findSome? fun (key, d) =>
    if d.answersTo name paramCount then d.body.map fun b => .body key d b else none

/-- Look for native code or a body in at most `count` classes, from one class upwards. -/
def lookupIn (p : Program) (name : String) (paramCount : Nat) : Nat → String → Option Callee
  | 0, _ => none
  | count + 1, className =>
    match p.natives (nativeName className name) with
    | some code => some (.native code)
    | none => (p.module.findType? className).bind fun t =>
      match bodyIn? t name paramCount with
      | some callee => some callee
      | none => (p.module.baseOf? t).bind fun base =>
        p.lookupIn name paramCount count base.definitionName

def lookup (p : Program) (className name : String) (paramCount : Nat) : Option Callee :=
  p.lookupIn name paramCount (p.module.types.length + 1) className

/-- Whether calls of a method are dispatched: the first class upwards that declares it decides,
and an interface or a class outside of the module stands for a virtual method. -/
def isVirtualIn (m : Module) (name : String) (paramCount : Nat) : Nat → String → Bool
  | 0, _ => true
  | count + 1, className =>
    match m.findType? className with
    | none => true
    | some t =>
      if t.flags.isInterface then true
      else match t.methods.find? fun d => d.answersTo name paramCount with
        | some d => d.flags.isVirtual
        | none => match m.baseOf? t with
          | some base => isVirtualIn m name paramCount count base.definitionName
          | none => true

def isVirtualMethod (p : Program) (method : MethodRef) : Bool :=
  isVirtualIn p.module method.name method.params.length (p.module.types.length + 1)
    method.declaring.definitionName

/-- The class at which the search for the code of a call starts. -/
def startClass (p : Program) (h : Heap) (c : Call) : Except ExecError String :=
  if c.isVirtual && c.method.hasThis && p.isVirtualMethod c.method then
    match c.args with
    | [] => .error (.stackUnderflow c.method.fullName)
    | .null :: _ => .error (.nullReference c.method.fullName)
    | receiver :: _ => (h.object receiver).map fun (_, o) => o.className
  else .ok c.method.declaring.definitionName

/-- The code that a call runs. -/
def callee (p : Program) (h : Heap) (c : Call) : Except ExecError Callee :=
  match p.startClass h c with
  | .error e => .error e
  | .ok className => match p.lookup className c.method.name c.method.params.length with
    | some callee => .ok callee
    | none => .error (.unresolvedMethod c.method.fullName)

end Program

end ReleaseWeaver.Machine
