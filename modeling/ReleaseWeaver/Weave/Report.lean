import ReleaseWeaver.Weave.Error
import ReleaseWeaver.Weave.Marker

/-
  Reports: what became of each target. A target goes through its states in one direction only,
  and a target that is skipped says why.
-/

namespace ReleaseWeaver

inductive TargetState where
  | unweaved
  | fieldAdded
  | constructorsInstrumented
  | callSitesRewritten
  | teardownEnsured
  | released
deriving DecidableEq, Inhabited, Repr

namespace TargetState

def stage : TargetState → Nat
  | unweaved => 0
  | fieldAdded => 1
  | constructorsInstrumented => 2
  | callSitesRewritten => 3
  | teardownEnsured => 4
  | released => 5

def text : TargetState → String
  | unweaved => "unweaved"
  | fieldAdded => "field added"
  | constructorsInstrumented => "constructors instrumented"
  | callSitesRewritten => "call sites rewritten"
  | teardownEnsured => "teardown ensured"
  | released => "released"

def ofText? (word : String) : Option TargetState :=
  [unweaved, fieldAdded, constructorsInstrumented, callSitesRewritten, teardownEnsured,
    released].find? fun s => s.text == word

end TargetState

structure TargetReport where
  typeName : String
  family : Family
  wide : Bool
  state : TargetState := .unweaved
  registrations : Nat := 0
  constructors : Nat := 0
  propertiesReleased : Nat := 0
  skipReason : Option String := none
deriving DecidableEq, Inhabited, Repr

namespace TargetReport

/-- Go to a state that comes after the present one. -/
def advance (r : TargetReport) (next : TargetState) : Except WeaveError TargetReport :=
  if r.state.stage < next.stage then .ok { r with state := next }
  else .error (.notForward r.typeName r.state.text next.text)

def skip (r : TargetReport) (reason : String) : TargetReport :=
  { r with skipReason := some reason }

def isSkipped (r : TargetReport) : Bool := r.skipReason.isSome

def isReleased (r : TargetReport) : Bool := r.state = .released

def text (r : TargetReport) : String :=
  "[" ++ r.family.text ++ "] " ++ r.typeName ++ ": " ++ match r.skipReason with
  | some reason => "skipped (" ++ reason ++ ")"
  | none => r.state.text ++ " (" ++ toString r.registrations ++ " registration(s), "
      ++ toString r.constructors ++ " constructor(s), "
      ++ toString r.propertiesReleased ++ " propert(y/ies))"

end TargetReport

structure WeaveReport where
  targets : List TargetReport := []
deriving DecidableEq, Inhabited, Repr

namespace WeaveReport

def push (r : WeaveReport) (target : TargetReport) : WeaveReport := ⟨r.targets ++ [target]⟩

def find? (r : WeaveReport) (typeName : String) (family : Family) : Option TargetReport :=
  r.targets.find? fun t => t.family = family && t.typeName == typeName

def released (r : WeaveReport) : List TargetReport := r.targets.filter TargetReport.isReleased

def skipped (r : WeaveReport) : List TargetReport := r.targets.filter TargetReport.isSkipped

def totalRegistrations (r : WeaveReport) : Nat :=
  r.targets.foldl (fun total target => total + target.registrations) 0

end WeaveReport

end ReleaseWeaver
