import ReleaseWeaver.Reference.Type

/-
  References to methods and fields: the declaring type, the name and the signature.
-/

namespace ReleaseWeaver

/-- The name of every constructor. -/
def constructorName : String := ".ctor"

/-- What stands for the type of a result that is not there. -/
def voidName : String := "System.Void"

structure MethodRef where
  declaring : TypeRef
  name : String
  returns : Option TypeRef := none
  params : List TypeRef := []
  /-- Instance methods take the receiver as a first argument. -/
  hasThis : Bool := true
deriving BEq, Hashable, Inhabited, Repr

namespace MethodRef

def isConstructor (m : MethodRef) : Bool := m.name == constructorName

/-- The number of values that a call takes from the stack. -/
def arity (m : MethodRef) : Nat := m.params.length + m.hasThis.toNat

def fullName (m : MethodRef) : String :=
  let result := match m.returns with
    | some t => t.fullName
    | none => voidName
  result ++ " " ++ m.declaring.fullName ++ "::" ++ m.name ++ "("
    ++ String.intercalate "," (m.params.map TypeRef.fullName) ++ ")"

end MethodRef

structure FieldRef where
  declaring : TypeRef
  name : String
  type : TypeRef
deriving BEq, Hashable, Inhabited, Repr

def FieldRef.fullName (f : FieldRef) : String :=
  f.type.fullName ++ " " ++ f.declaring.fullName ++ "::" ++ f.name

end ReleaseWeaver
