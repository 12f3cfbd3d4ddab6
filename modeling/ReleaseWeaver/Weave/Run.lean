import ReleaseWeaver.Weave.Pass

/-
  A whole run: bind the collaborators, prepare the teardowns of the targets of both families, then
  the handle pass and, if a command marker is there at all, the command pass. A collaborator that
  is missing ends the run before anything changes.
-/

namespace ReleaseWeaver

open Weaving

namespace Weave

/-- Bind a collaborator, or say what is missing and fail. -/
def bindCollaborator {α : Type} (result : Except BindingError α) : Weaving α :=
  match result with
  | .ok a => return a
  | .error e => do
    say .error e.message
    throw (.binding e)

def resolveCapability (config : Config) (markers : MarkerTable) : Weaving (Option TypeRef) := do
  if markers.hasFamily .releaseCommands then
    return some (← bindCollaborator (Collaborators.resolveCapability (← get).module config))
  else return none

/-- The targets of both families; those of commands only if the capability is bound. -/
def allTargets (m : Module) (markers : MarkerTable) (capability : Option TypeRef) :
    List Target :=
  Target.select m markers .trackHandles
    ++ if capability.isSome then Target.select m markers .releaseCommands else []

def closingMessage (report : WeaveReport) (moduleName : String) : String :=
  "Woven " ++ toString report.released.length ++ " target(s) of " ++ moduleName ++ ", skipped "
    ++ toString report.skipped.length

def execute (config : Config) : Weaving WeaveReport := do
  let markers := MarkerTable.collect (← get).module config.markers
  let collaborators ← bindCollaborator (Collaborators.resolve (← get).module config)
  let capability ← resolveCapability config markers
  let c : WeaveContext := { config, collaborators, markers }
  let targets := allTargets (← get).module markers capability
  setModule (prepareTeardowns c.disposal targets (← get).module).1
  runPass c .trackHandles (trackHandles c)
  match capability with
  | some capability => runPass c .releaseCommands (releaseCommands c capability)
  | none => pure ()
  let s ← get
  say .info (closingMessage s.report s.module.name)
  return s.report

end Weave

/-- What a run leaves behind. -/
structure WeaveOutcome where
  module : Module
  log : Log
  result : Except WeaveError WeaveReport

/-- Weave a module. -/
def Module.weave (m : Module) (config : Config) : WeaveOutcome :=
  match (Weave.execute config).run { module := m } with
  | .ok report s => ⟨s.module, s.log, .ok report⟩
  | .error e s => ⟨s.module, s.log, .error e⟩

end ReleaseWeaver
