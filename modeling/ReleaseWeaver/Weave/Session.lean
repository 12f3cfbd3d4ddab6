import ReleaseWeaver.Weave.Collaborators
import ReleaseWeaver.Weave.Log
import ReleaseWeaver.Weave.Report
import ReleaseWeaver.Weave.Target

/-
  What a run has in hand: the module, the report of the targets done, the entry of the target in
  work, and the messages. An action that fails leaves the session as far as it came.
-/

namespace ReleaseWeaver

structure Session where
  module : Module
  report : WeaveReport := {}
  entry : TargetReport := default
  log : Log := []

abbrev Weaving := EStateM WeaveError Session

/-- What a pass reads besides the module. -/
structure WeaveContext where
  config : Config
  collaborators : Collaborators
  markers : MarkerTable

def WeaveContext.disposal (c : WeaveContext) : Disposal :=
  ⟨c.collaborators.contract, c.config.releaseMethod⟩

namespace Weaving

def say (level : Level) (text : String) : Weaving Unit :=
  modify fun s => { s with log := s.log ++ [{ level, text }] }

def setModule (m : Module) : Weaving Unit := modify fun s => { s with module := m }

def modifyEntry (f : TargetReport → TargetReport) : Weaving Unit :=
  modify fun s => { s with entry := f s.entry }

def orFail {α : Type} : Except WeaveError α → Weaving α
  | .ok a => pure a
  | .error e => throw e

/-- Bring the target in work to a later state. -/
def advance (next : TargetState) : Weaving Unit := do
  let entry ← orFail ((← get).entry.advance next)
  modifyEntry fun _ => entry

/-- Look a type up; a name the module lacks stands for a type without anything. -/
def typeNamed (name : String) : Weaving TypeDef := do
  return ((← get).module.findType? name).getD default

end Weaving

end ReleaseWeaver
