import ReleaseWeaver.Metadata.Hierarchy
import ReleaseWeaver.Weave.Error

/-
  Teardowns: the method that releases an object. A target that declares one keeps it; a target
  that inherits one gets an override that calls the inherited teardown. Releases go before the
  last `ret`, and branches to that `ret` lead to the release.
-/

namespace ReleaseWeaver

inductive TeardownPlan where
  /-- The target declares its teardown, which ends in a `ret`. -/
  | existing (teardown : MethodKey)
  /-- An override of `ancestor` is needed. -/
  | synthesize (ancestor : MethodKey)
deriving DecidableEq, Repr

namespace Module

/-- The qualified name of a method of the module. -/
def qualifiedName (m : Module) (key : MethodKey) : String :=
  key.owner ++ "::" ++ ((m.findMethod? key).map MethodDef.name).getD ""

/-- The key of a teardown that was looked for on behalf of a type. -/
def requireTeardown (t : TypeDef) (found : Option (MethodKey × MethodDef)) :
    Except TargetError MethodKey :=
  match found with
  | some (key, _) => .ok key
  | none => .error (.notDisposable t.definitionName)

/-- The key of the nearest teardown, the type's own included. -/
def resolveTeardown (m : Module) (d : Disposal) (t : TypeDef) : Except TargetError MethodKey :=
  requireTeardown t (m.teardown? d t)

/-- The key of the nearest teardown strictly above the type. -/
def resolveInheritedTeardown (m : Module) (d : Disposal) (t : TypeDef) :
    Except TargetError MethodKey :=
  requireTeardown t (m.inheritedTeardown? d t)

/-- How the target's teardown is obtained, or why it cannot have one. -/
def planTeardown (m : Module) (d : Disposal) (t : TypeDef) : Except TargetError TeardownPlan :=
  match t.ownTeardown? d with
  | some (key, own) =>
    if own.finalExit?.isSome then .ok (.existing key)
    else .error (.missingFinalExit (t.qualifiedName own))
  | none =>
    if !t.generics.isEmpty then
      .error (.unsupportedGenericSynthesis t.definitionName d.release)
    else match m.inheritedTeardown? d t with
      | none => .error (.notDisposable t.definitionName)
      | some (key, inherited) =>
        if inherited.flags.isFinal then .error (.finalTeardown (m.qualifiedName key))
        else .ok (.synthesize key)

/-- An override of `inherited` that calls it through `declaring` and returns. -/
def overridingTeardown (inherited : MethodDef) (baseCall : MethodRef) : MethodDef where
  name := inherited.name
  returns := inherited.returns
  flags := inherited.flags.overriding
  visibility := inherited.visibility
  body := some (Body.ofInstrs [.ldthis, .call baseCall, .ret])

/-- Give `t` an override of the teardown `inherited` of `owner`, which, if it is the module's own,
is opened for overriding. -/
def synthesizeTeardown (m : Module) (t owner : TypeDef) (ancestor : MethodKey)
    (inherited : MethodDef) : Module :=
  let baseCall := { owner.methodRef inherited with declaring := m.ancestorRef t owner }
  let m' := m.addMethod t.definitionName (overridingTeardown inherited baseCall)
  if owner.isLocal then m'.modifyMethod ancestor fun d => { d with flags := d.flags.opened }
  else m'

/-- Carry out a plan; the key is that of the teardown. -/
def ensureTeardown (m : Module) (t : TypeDef) (plan : TeardownPlan) : Module × MethodKey :=
  match plan with
  | .existing key => (m, key)
  | .synthesize ancestor =>
    match m.findType? ancestor.owner, m.findMethod? ancestor with
    | some owner, some inherited =>
      (m.synthesizeTeardown t owner ancestor inherited, m.nextMethodKey t.definitionName)
    | _, _ => (m, ancestor)

/-- Insert a run before the final exit of a teardown; the handles are those of the run. -/
def appendRelease (m : Module) (teardown : MethodKey) (run : List Instr) :
    Except WeaveError (Module × List Handle) :=
  match (m.findMethod? teardown).bind MethodDef.body with
  | none => .error (.target (.missingFinalExit (m.qualifiedName teardown)))
  | some b => match b.finalExit? with
    | none => .error (.target (.missingFinalExit (m.qualifiedName teardown)))
    | some exit => match b.insertBeforeRetargeting exit run with
      | .ok b' => .ok (m.modifyBody teardown fun _ => b', b.nextHandles run.length)
      | .error e => .error (.instruction e)

end Module

/-- Release the container in the tracking field. -/
def releaseField (field : FieldRef) (containerRelease : MethodRef) : List Instr :=
  [.ldthis, .ldfld field, .callvirt containerRelease]

/-- Release the value that a getter returns. -/
def releaseProperty (getter contractRelease : MethodRef) : List Instr :=
  [.ldthis, .call getter, .callvirt contractRelease]

/-- Release the value of each getter, in order. -/
def Module.releaseProperties (m : Module) (teardown : MethodKey) (getters : List MethodRef)
    (contractRelease : MethodRef) : Except WeaveError Module :=
  getters.foldlM (fun m getter =>
    (m.appendRelease teardown (releaseProperty getter contractRelease)).map Prod.fst) m

end ReleaseWeaver
