import ReleaseWeaver.Metadata.Module

/-
  What can stop a target, a run, or the search for the collaborators.
-/

namespace ReleaseWeaver

/-- Faults of one target; the others are woven all the same. -/
inductive TargetError where
  | notDisposable (typeName : String)
  | unsupportedGenericSynthesis (typeName method : String)
  | missingFinalExit (method : String)
  | finalTeardown (method : String)
deriving DecidableEq, Repr

/-- A collaborator that the configuration names and the module does not have. -/
inductive BindingError where
  | missingAssembly (name : String) (available : List String)
  | missingType (name assembly : String)
  | missingMember (typeName member : String)
deriving DecidableEq, Repr

inductive WeaveError where
  | target (e : TargetError)
  | binding (e : BindingError)
  | trackingFieldExists (typeName : String)
  | instruction (e : UnknownInstruction)
  | duplicate (e : DuplicateError)
  /-- A target was to go to a state that does not come after its own. -/
  | notForward (typeName source goal : String)
deriving DecidableEq, Repr

def TargetError.message : TargetError → String
  | .notDisposable typeName =>
    "Target class " ++ typeName ++ " is not disposable and therefore cannot be woven"
  | .unsupportedGenericSynthesis typeName method =>
    "Automatically generating a " ++ method ++ " method for " ++ typeName
      ++ " is not supported due to generics in its inheritance hierarchy. You need to create an "
      ++ "empty parameterless " ++ method ++ "() and re-build"
  | .missingFinalExit method =>
    "Teardown method '" ++ method ++ "' has no body ending in a return instruction"
  | .finalTeardown method =>
    "Teardown method '" ++ method ++ "' is final and cannot be overridden"

def BindingError.message : BindingError → String
  | .missingAssembly name available =>
    "Could not find assembly: " ++ name ++ " (" ++ String.intercalate ", " available ++ ")"
  | .missingType name assembly =>
    "Could not resolve type '" ++ name ++ "' from assembly '" ++ assembly ++ "'"
  | .missingMember typeName member =>
    "Type '" ++ typeName ++ "' has no member '" ++ member ++ "' with the expected signature"

def WeaveError.message : WeaveError → String
  | .target e => e.message
  | .binding e => e.message
  | .trackingFieldExists typeName =>
    "Type '" ++ typeName ++ "' already declares its tracking field"
  | .instruction e => e.message
  | .duplicate e => e.message
  | .notForward typeName source goal =>
    typeName ++ " cannot go from " ++ source ++ " to " ++ goal

end ReleaseWeaver
