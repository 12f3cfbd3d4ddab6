import ReleaseWeaver.Weave.Session
import ReleaseWeaver.Weave.Teardown
import ReleaseWeaver.Weave.Tracking

/-
  The two passes over the targets. Ahead of both, every target that needs one gets its teardown,
  ancestors before descendants, so that an override calls the nearest teardown there is. A target
  with a fault of its own is reported and skipped before anything of it changes.
-/

namespace ReleaseWeaver

open Weaving

namespace Weave

/-- Insert a type ahead of the first one whose chain is no shorter. -/
def insertByChain (m : Module) (t : TypeDef) : List TypeDef → List TypeDef
  | [] => [t]
  | u :: rest =>
    if (m.ancestors t).length ≤ (m.ancestors u).length then t :: u :: rest
    else u :: insertByChain m t rest

/-- The targets' types, those with the shortest chain first, otherwise in declaration order. -/
def preparationOrder (m : Module) (targets : List Target) : List TypeDef :=
  (m.types.filter fun t =>
    targets.any fun target => target.typeName == t.definitionName).foldr (insertByChain m) []

/-- Give a type the override it needs, if it can have one. -/
def prepareTeardown (d : Disposal) (typeName : String) (m : Module) : Module × Nat :=
  match m.findType? typeName with
  | none => (m, 0)
  | some t =>
    if !m.isDisposable d t then (m, 0)
    else match m.planTeardown d t with
      | .ok (.synthesize ancestor) => ((m.ensureTeardown t (.synthesize ancestor)).1, 1)
      | _ => (m, 0)

/-- Give every target the override it needs, and count them. -/
def prepareTeardowns (d : Disposal) (targets : List Target) (m : Module) : Module × Nat :=
  (preparationOrder m targets).foldl (fun (m, count) t =>
    let (m', added) := prepareTeardown d t.definitionName m
    (m', count + added)) (m, 0)

/-- The plan for a disposable target, before anything of it changes. -/
def requirePlan (c : WeaveContext) (t : TypeDef) : Weaving TeardownPlan := do
  let m := (← get).module
  if !m.isDisposable c.disposal t then throw (.target (.notDisposable t.definitionName))
  match m.planTeardown c.disposal t with
  | .ok plan => return plan
  | .error e => throw (.target e)

/-- Register the handles of the bodies in scope. -/
def registerScope (c : WeaveContext) (field : FieldRef) : List MethodKey → Weaving Unit
  | [] => return
  | key :: rest => do
    match ((← get).module.findMethod? key).bind MethodDef.body with
    | none => registerScope c field rest
    | some b =>
      let calls := b.handleCalls c.collaborators.contract c.config.handleCallFragment
      let (b', result) := b.register field c.collaborators.helper calls
      setModule ((← get).module.modifyBody key fun _ => b')
      match result with
      | .error e => throw (.instruction e)
      | .ok count =>
        modifyEntry fun e => { e with registrations := e.registrations + count }
        registerScope c field rest

/-- Carry out the plan for the target's teardown. -/
def ensureTeardown (typeName : String) (plan : TeardownPlan) : Weaving MethodKey := do
  let (m, teardown) := (← get).module.ensureTeardown (← typeNamed typeName) plan
  setModule m
  advance .teardownEnsured
  return teardown

def excludedMessage (t : TypeDef) (d : MethodDef) : String :=
  "Marked method " ++ t.qualifiedName d
    ++ " is static or has no body and cannot be instrumented"

/-- Weave a handle target: field, prologues, registrations, release. -/
def trackHandles (c : WeaveContext) (target : Target) : Weaving Unit := do
  let t ← typeNamed target.typeName
  let plan ← requirePlan c t
  (target.excludedMethods c.markers t).forM fun (_, d) => say .error (excludedMessage t d)
  let scope := (target.methods c.markers t).map Prod.fst
  let (m, field) ← orFail <|
    (← get).module.addTrackingField t c.config.fieldPrefix c.collaborators.container
  setModule m
  advance .fieldAdded
  let (m, count) :=
    m.instrumentConstructors target.typeName field c.collaborators.containerConstructor
  setModule m
  modifyEntry fun e => { e with constructors := count }
  advance .constructorsInstrumented
  registerScope c field scope
  advance .callSitesRewritten
  let teardown ← ensureTeardown target.typeName plan
  let (m, _) ← orFail <|
    (← get).module.appendRelease teardown (releaseField field c.collaborators.containerRelease)
  setModule m
  advance .released

/-- The getters of the properties whose value is a command under the disposal contract. -/
def releasableGetters (c : WeaveContext) (capability : TypeRef) (m : Module) (target : Target)
    (t : TypeDef) : List MethodRef :=
  (target.properties c.markers t).filterMap fun (_, p) =>
    if m.isAssignable p.type capability && m.isAssignable p.type c.collaborators.contract then
      p.getter.bind m.methodRef?
    else none

/-- Weave a command target: release its commands after what its teardown does already. -/
def releaseCommands (c : WeaveContext) (capability : TypeRef) (target : Target) :
    Weaving Unit := do
  let t ← typeNamed target.typeName
  let plan ← requirePlan c t
  let getters := releasableGetters c capability (← get).module target t
  let teardown ← ensureTeardown target.typeName plan
  setModule (← orFail <|
    (← get).module.releaseProperties teardown getters c.collaborators.contractRelease)
  modifyEntry fun e => { e with propertiesReleased := getters.length }
  advance .released

/-- Weave one target and enter the outcome into the report. Only a fault of the target itself,
found before the target changed, lets the pass go on. -/
def weaveTarget (weave : Target → Weaving Unit) (target : Target) : Weaving Unit := do
  say .info ("Weaving target: " ++ target.typeName)
  modify fun s => { s with
    entry := { typeName := target.typeName, family := target.family, wide := target.wide } }
  try
    weave target
    say .info ("Completed weaving target: " ++ target.typeName)
  catch
    | .target e =>
      if (← get).entry.state = .unweaved then
        say .error e.message
        modifyEntry fun entry => entry.skip e.message
      else throw (.target e)
    | e => throw e
  modify fun s => { s with report := s.report.push s.entry }

/-- Weave the targets of a family, in declaration order. -/
def runPass (c : WeaveContext) (family : Family) (weave : Target → Weaving Unit) :
    Weaving Unit := do
  let targets := Target.select (← get).module c.markers family
  say .info ("Weaving " ++ toString targets.length ++ " " ++ family.text ++ " target(s)")
  targets.forM (weaveTarget weave)

end Weave

end ReleaseWeaver
