import ReleaseWeaver.Text.Quoted

/-
  Values and the heap. Objects are numbered from 1 in the order they were made and are never
  given up. An object has a class, fields that read as null until they are set, and possibly a
  native part: a container of handles, or a handle.
-/

namespace ReleaseWeaver.Machine

inductive Value where
  | null
  | int (value : Int64)
  | str (value : String)
  | object (number : Nat)
deriving DecidableEq, Inhabited, Repr

namespace Value

/-- What a conditional branch takes for true. -/
def isTruthy : Value → Bool
  | null => false
  | int value => value != 0
  | str _ | object _ => true

def text : Value → String
  | null => "Null"
  | int value => "Int(" ++ toString value.toInt ++ ")"
  | str value => "Str(" ++ Text.Quoted.quote value ++ ")"
  | object number => "Object(ObjectId(" ++ toString number ++ "v1))"

end Value

inductive ExecError where
  | unresolvedMethod (method : String)
  | nullReference (operation : String)
  | notAnObject (what : String)
  | danglingObject
  | stackUnderflow (operation : String)
  | badArgument (index : UInt16)
  | badLocal (index : UInt16)
  | badBranch
  | fellOffEnd (method : String)
  | stepLimitExceeded (limit : Nat)
  | thrown (value : Value)
deriving DecidableEq, Repr

def ExecError.message : ExecError → String
  | .unresolvedMethod method => "No body or intrinsic for `" ++ method ++ "`"
  | .nullReference operation => "Null reference while executing `" ++ operation ++ "`"
  | .notAnObject what => "Value `" ++ what ++ "` is not an object"
  | .danglingObject => "Object handle is dangling"
  | .stackUnderflow operation =>
    "Evaluation stack underflow while executing `" ++ operation ++ "`"
  | .badArgument index => "Argument " ++ toString index.toNat ++ " is out of range"
  | .badLocal index => "Local " ++ toString index.toNat ++ " is out of range"
  | .badBranch => "Branch to an instruction outside of the body"
  | .fellOffEnd method => "Execution fell off the end of `" ++ method ++ "`"
  | .stepLimitExceeded limit => "Step limit of " ++ toString limit ++ " instructions exceeded"
  | .thrown value => "Exception thrown: " ++ value.text

inductive Native where
  | plain
  /-- The entries stay when the container is released. -/
  | container (entries : List Value) (released : Bool)
  | handle (released : Bool)
deriving DecidableEq, Inhabited, Repr

structure Object where
  /-- The definition name of the class. -/
  className : String
  fields : List (String × Value) := []
  native : Native := .plain
deriving DecidableEq, Inhabited, Repr

namespace Object

/-- A field that was never set is null. -/
def field (o : Object) (name : String) : Value := (o.fields.lookup name).getD .null

def setField (o : Object) (name : String) (v : Value) : Object :=
  { o with fields := (name, v) :: o.fields.filter fun f => f.1 != name }

/-- Whether a container, a handle, or an object that says so in a field, is released. -/
def isReleased (o : Object) : Bool :=
  match o.native with
  | .container _ released | .handle released => released
  | .plain => o.fields.lookup "IsDisposed" == some (.int 1)

end Object

structure Heap where
  objects : Array Object := #[]
deriving Inhabited, Repr

namespace Heap

def alloc (h : Heap) (o : Object) : Heap × Value :=
  (⟨h.objects.push o⟩, .object (h.objects.size + 1))

def get? (h : Heap) : Nat → Option Object
  | 0 => none
  | n + 1 => h.objects[n]?

def modify (h : Heap) (f : Object → Object) : Nat → Heap
  | 0 => h
  | n + 1 => ⟨h.objects.modify n f⟩

/-- The object that a value names. -/
def object (h : Heap) : Value → Except ExecError (Nat × Object)
  | .object n => match h.get? n with
    | some o => .ok (n, o)
    | none => .error .danglingObject
  | .null => .error (.nullReference "object access")
  | v => .error (.notAnObject v.text)

def field (h : Heap) (v : Value) (name : String) : Except ExecError Value := do
  return (← h.object v).2.field name

def setField (h : Heap) (v : Value) (name : String) (content : Value) :
    Except ExecError Heap := do
  return h.modify (·.setField name content) (← h.object v).1

/-- The entries of a container. -/
def entries (h : Heap) (v : Value) : Except ExecError (List Value) := do
  match (← h.object v).2.native with
  | .container entries _ => return entries
  | _ => throw (.notAnObject (v.text ++ " is not a container"))

def isReleased (h : Heap) (v : Value) : Except ExecError Bool := do
  return (← h.object v).2.isReleased

/-- How many entries of a container are released, and how many are not. -/
def releaseCounts (h : Heap) (v : Value) : Except ExecError (Nat × Nat) := do
  let states ← (← h.entries v).mapM h.isReleased
  return (states.count true, states.count false)

end Heap

end ReleaseWeaver.Machine
